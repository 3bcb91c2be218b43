import XPathScan.Proofs.Plain.Order
import XPathScan.Proofs.Reading.Boundary
import XPathScan.Proofs.Trivia.Gap

/-!
# What a plain lexer sees, taken apart

Where a plain lexer sees a token, the text ahead has three parts: blanks and comments, the bytes of
the token, and what is behind it. The parts say it all (`XPathScan.Leads`): wherever a text has
them, that token is seen, and nothing about it depends on what comes before. The first part can be
exchanged for other blanks and comments, and the last one for a text that ends tokens alike.

* `XPathScan.Plain.Sees.leads` – the parts of what is seen;
* `XPathScan.Plain.exists_look_of_leads` – what is seen by its parts;
* `XPathScan.Leads.exchange` – other blanks and comments before the token, another text behind it.
-/

namespace XPathScan

variable {version : Version} {g g' u rest rest' text : List UInt8} {kind : Kind}

/-- **A text that a token leads**: blanks and comments, the bytes of the token, and a rest. -/
structure Leads (version : Version) (g : List UInt8) (kind : Kind) (u rest : List UInt8) :
    Prop where
  /-- What stands before the token is stepped over. -/
  crossed : ∃ parts, Crossed .xml version g parts
  /-- The token has a byte. -/
  ne_nil : u ≠ []
  /-- It is not one of a blank or a comment. -/
  not_startsTrivia : ¬StartsTrivia version (u ++ rest)
  /-- The token is what is read. -/
  read : (Reading.token (.ofVersion version) .xml (u ++ rest)).found = .ok (kind, u.length)

/-- A text that starts with no separator starts with no blank and no comment. -/
theorem not_startsTrivia_cons {b : UInt8} (hb : b ∉ separators) (t : List UInt8) :
    ¬StartsTrivia version (b :: t) := by
  rintro (⟨b', hb', hhead⟩ | ⟨-, hpair⟩)
  · obtain rfl : b = b' := by simpa using hhead
    exact hb (List.mem_append_left [Ascii.leftParen] hb')
  · obtain ⟨rfl, -⟩ := List.cons_prefix_cons.mp hpair
    exact hb (by decide)

/-- **The bytes of a token do not become a comment** when the text behind them is replaced. -/
theorem not_startsTrivia_append (hu : u ≠ []) (hrest : EndsLike rest rest')
    (h : ¬StartsTrivia version (u ++ rest)) : ¬StartsTrivia version (u ++ rest') := by
  rintro (⟨b, hb, hhead⟩ | ⟨hversion, hpair⟩)
  · obtain ⟨a, u, rfl⟩ := List.exists_cons_of_ne_nil hu
    exact h (Or.inl ⟨b, hb, hhead⟩)
  · refine h (Or.inr ⟨hversion, ?_⟩)
    match u with
    | [b] =>
      -- The colon would be the first byte of the rest, and it is not a separator.
      obtain ⟨rfl, hcolon⟩ := List.cons_prefix_cons.mp hpair
      obtain ⟨t, rfl⟩ := hcolon
      obtain ⟨t', rfl⟩ := List.head?_eq_some_iff.mp (hrest.head?_eq Ascii.colon rfl (by decide))
      exact ⟨t', rfl⟩
    | b :: b' :: u => simpa [List.cons_prefix_cons] using hpair

namespace Leads

/-- **Other blanks and comments before a token, and another text behind it**, change nothing but
the kind of a question mark. -/
theorem exchange (h : Leads version g kind u rest) (hg : ∃ parts, Crossed .xml version g' parts)
    (hrest : EndsLike rest rest') :
    Leads version g' (Reading.kindBefore (.ofVersion version) u kind rest') u rest' where
  crossed := hg
  ne_nil := h.ne_nil
  not_startsTrivia := not_startsTrivia_append h.ne_nil hrest h.not_startsTrivia
  read := Reading.token_of_endsLike h.ne_nil hrest h.read

/-- **If the first byte behind a token stays, so does its kind.** -/
theorem exchange_rest (h : Leads version g kind u rest) (hrest : EndsLike rest rest')
    (hhead : rest.head? = rest'.head?) : Leads version g kind u rest' := by
  have hkept := h.exchange h.crossed hrest
  rwa [← Reading.kindBefore_congr hhead, Reading.kindBefore_eq h.read] at hkept

/-- A token that leads a text is not the end of it. -/
theorem kind_ne_eof (h : Leads version g kind u rest) : kind ≠ .eof :=
  (Reading.gives_token version (List.append_ne_nil_of_left_ne_nil h.ne_nil rest) h.read).2.1

end Leads

namespace Plain

variable {p q : Point} {t : Token}

/-- **Behind what is stepped over the text is read**, with the flags of its parts. -/
theorem look_of_crossed {classes : ByteClass} {parts : List GapPart}
    (hg : Crossed classes version g parts) {text t : List UInt8} {p : Point}
    (htext : text.drop p.offset = g ++ t) (ht : GapFree classes version t) :
    ((Plain.of text classes version).look p).found =
      (Plain.of text classes version).readToken (p.pastGap text g.length) (gapFlags parts)
        (Reading.token (.ofVersion version) classes t).found := by
  have hahead : text.drop (p.offset + g.length) = t := by
    rw [← List.drop_drop, htext, List.drop_left]
  have hlook := look_of_extent (s := .of text classes version) (p := p) (k := g.length)
    (by rw [htext]; exact Trivia.extent_of_crossed hg ht .none)
  rw [hlook]
  simp only
  rw [hahead]
  rfl

/-- **Behind blanks and comments the text is read**, with flags that depend on them alone. -/
theorem exists_look_eq (hg : ∃ parts, Crossed .xml version g parts) :
    ∃ trivia, ∀ {text t : List UInt8} {p : Point}, text.drop p.offset = g ++ t →
      ¬StartsTrivia version t →
      ((Plain.of text .xml version).look p).found =
        (Plain.of text .xml version).readToken (p.pastGap text g.length) trivia
          (Reading.token (.ofVersion version) .xml t).found := by
  obtain ⟨parts, hparts⟩ := hg
  exact ⟨gapFlags parts, fun htext ht => look_of_crossed hparts htext (gapFree_xml ht)⟩

/-- **A token that leads the text ahead is seen.** -/
theorem exists_look_of_leads (h : Leads version g kind u rest)
    (htext : text.drop p.offset = g ++ (u ++ rest)) :
    ∃ t q, ((Plain.of text .xml version).look p).found = .ok (t, q) ∧ t.isEof = false ∧
      t.kind = kind ∧ t.lexeme = u ∧
      t.span = { start := p.offset + g.length, stop := p.offset + g.length + u.length } ∧
      q.offset = p.offset + g.length + u.length := by
  obtain ⟨trivia, hlook⟩ := exists_look_eq h.crossed
  have hfound := hlook htext h.not_startsTrivia
  rw [h.read] at hfound
  refine ⟨_, _, hfound, ?_, rfl, ?_, rfl, rfl⟩
  · simpa [Token.isEof, tokenAt] using h.kind_ne_eof
  · show (text.drop (p.offset + g.length)).take u.length = u
    rw [← List.drop_drop, htext, List.drop_left, List.take_left]

/-- The point behind a token that is seen is in the text. -/
theorem Sees.offset_le {s : Plain} (h : s.Sees p t q) : q.offset ≤ s.text.length := by
  rw [h.offset_eq]
  exact h.stop_le

/-- The bytes of a token that is seen, and those behind it. -/
theorem Sees.lexeme_append_drop {s : Plain} (h : s.Sees p t q) :
    t.lexeme ++ s.text.drop t.span.stop = s.text.drop t.span.start := by
  rw [h.lexeme_eq]
  exact slice_append_drop h.start_le s.text

/-- **The parts of what is seen.** -/
theorem Sees.leads (h : (Plain.of text .xml version).Sees p t q) (heof : t.isEof = false) :
    text.drop p.offset = Span.slice { start := p.offset, stop := t.span.start } text ++
        (t.lexeme ++ text.drop t.span.stop) ∧
      Leads version (Span.slice { start := p.offset, stop := t.span.start } text) t.kind t.lexeme
        (text.drop t.span.stop) := by
  have hlt := h.isEof_iff.2 heof
  have hstop : t.span.stop ≤ text.length := h.stop_le
  have hlexeme : t.lexeme = t.span.slice text := h.lexeme_eq
  have hlen : t.lexeme.length = t.span.stop - t.span.start := by
    rw [hlexeme]
    exact length_slice hstop
  have hbehind : t.lexeme ++ text.drop t.span.stop = text.drop t.span.start :=
    h.lexeme_append_drop
  obtain ⟨trivia, hgap⟩ := h.gap
  rw [hbehind, slice_append_drop h.le_start]
  refine ⟨rfl, h.exists_crossed, ?_, ?_, ?_⟩
  · intro hnil
    rw [hnil, List.length_nil] at hlen
    omega
  · have hnot := Trivia.not_startsTrivia_drop_extent hgap
    rwa [List.drop_drop, Nat.add_sub_cancel' h.le_start, ← hbehind] at hnot
  · rw [hbehind, hlen]
    exact h.read

end Plain

end XPathScan
