import XPathScan.Proofs.Lexer.Content
import XPathScan.Proofs.Lexer.Tiling

/-!
# Tokens are the longest ones that can be read

Of all pieces of the text that begin where a token begins, the token is the longest one that is
itself a single token. It is one: taken out of the text, it reads as a token of the same kind, a
lookup apart, which is an ordinary question mark when nothing comes behind it. And no longer piece
is one: since a piece of the text ends tokens wherever the text does, the same token is read at its
beginning, and something is left.

* `XPathScan.Lexer.readsAs_iff` – pieces that are a single token, by what is read;
* `XPathScan.Leads.longest` – a token that leads a text is the longest one;
* `XPathScan.Lexer.answers_longest` – the same of the tokens of a lexer over a faithful source.
-/

namespace XPathScan

variable {version : Version} {text g u w rest : List UInt8} {kind : Kind}

/-- **The kind of a token on its own**: nothing is looked up where nothing comes behind. -/
def Kind.alone : Kind → Kind
  | .symbol .lookup => .symbol .questionMark
  | kind => kind

/-- **A text that is a single token** of a kind, from its first byte to its last one. -/
def ReadsAs (version : Version) (u : List UInt8) (kind : Kind) : Prop :=
  ∃ t, tokenize u version = .ok [t] ∧ t.lexeme = u ∧ t.kind = kind

/-- The kind of a token before nothing. -/
theorem Leads.kindBefore_nil (h : Leads version g kind u rest) :
    Reading.kindBefore (.ofVersion version) u kind [] = kind.alone := by
  have hkind := Reading.kindBefore_eq h.read
  rw [Reading.kindBefore] at hkind ⊢
  split at hkind
  · next hu =>
    -- Whatever a question mark is before the rest, it is an ordinary one alone.
    rw [if_pos hu, ← hkind, Reading.questionKind_nil, Reading.questionKind]
    split
    · rfl
    · rfl
  · next hu =>
    rw [if_neg hu, Kind.alone]
    rintro rfl
    exact hu (Reading.eq_question_of_lookup h.ne_nil h.read)

namespace Lexer

/-- **A text is a single token if it leads nothing but itself.** -/
theorem readsAs_iff : ReadsAs version u kind ↔ Leads version [] kind u [] := by
  constructor
  · rintro ⟨t, htokens, hlexeme, rfl⟩
    have hspells : Spells version u [(t.kind, u)] :=
      tokenize_iff_spells.mp ⟨[t], htokens, by simp [Token.content, hlexeme]⟩
    obtain ⟨g, rest, htext, hleads, -⟩ := hspells.cons_inv
    obtain ⟨rfl, rfl⟩ : g = [] ∧ rest = [] := by
      have hlen := congrArg List.length htext
      simp only [List.length_append] at hlen
      exact ⟨List.length_eq_zero_iff.mp (by omega), List.length_eq_zero_iff.mp (by omega)⟩
    exact hleads
  · intro h
    have hspells : Spells version u [(kind, u)] := by
      simpa using Spells.cons h (.nil ⟨[], .nil⟩)
    obtain ⟨ts, htokens, hcontents⟩ := tokenize_iff_spells.mpr hspells
    obtain ⟨t, rfl, hcontent⟩ : ∃ t, ts = [t] ∧ t.content = (kind, u) := by
      simpa [eq_comm] using hcontents
    obtain ⟨hkind, hlexeme⟩ := Prod.mk.inj hcontent
    exact ⟨t, htokens, hlexeme, hkind⟩

end Lexer

/-- **A token that leads a text is the longest one** that its beginning can be read as. -/
theorem Leads.longest (h : Leads version g kind u rest) :
    ReadsAs version u kind.alone ∧
      ∀ w, w <+: rest → w ≠ [] → ∀ kind', ¬ReadsAs version (u ++ w) kind' := by
  constructor
  · rw [Lexer.readsAs_iff, ← h.kindBefore_nil]
    exact h.exchange ⟨[], .nil⟩ (.of_piece List.nil_prefix)
  · intro w hw hne kind' hreads
    -- A piece of the text is read as far as the text is.
    have hshort := (h.exchange ⟨[], .nil⟩ (.of_piece hw)).read
    have hlong := (Lexer.readsAs_iff.mp hreads).read
    rw [List.append_nil, hshort] at hlong
    have hlen := (Prod.mk.inj (Except.ok.inj hlong)).2
    rw [List.length_append] at hlen
    exact hne (List.length_eq_zero_iff.mp (by omega))

namespace Lexer

variable {σ : Type} [Source σ] {n : Nat}

/-- **Tokens are the longest ones that can be read**, whatever the source and the size of the
buffers: each of them is a token on its own, and no longer piece of the text that begins where it
does is one. -/
theorem answers_longest {source : σ} (hsource : Source.Faithful source text) (hn : 0 < n)
    (version : Version) :
    ∃ l : Lexer σ n, ofSource source { bufferSize := n, version } .xml = .ok l ∧
      ∀ i t, l.answer i = .ok t → t.isEof = false →
        ReadsAs version (t.span.slice text) t.kind.alone ∧
        ∀ stop, t.span.stop < stop → stop ≤ text.length → ∀ kind,
          ¬ReadsAs version (Span.slice { start := t.span.start, stop } text) kind := by
  obtain ⟨l, hof, hl, hphase⟩ := follows_ofSource hsource hn version .xml
  refine ⟨l, hof, fun i t ht heof => ?_⟩
  obtain ⟨q, r, hreach, -, hfound⟩ := hl.answer_inv (by simp [hphase]) ht
  have hsees := Plain.sees_of_found (hreach.offset_le (Nat.zero_le _)).2 hfound
  have hlexeme : t.lexeme = t.span.slice text := hsees.lexeme_eq
  obtain ⟨hreads, hlongest⟩ := (hsees.leads heof).2.longest
  rw [hlexeme] at hreads hlongest
  refine ⟨hreads, fun stop hlt hle => ?_⟩
  have hmore : t.span.slice text ++ Span.slice { start := t.span.stop, stop } text =
      Span.slice { start := t.span.start, stop } text :=
    slice_append_slice hsees.start_le (Nat.le_of_lt hlt)
  rw [← hmore]
  refine hlongest _ (List.take_prefix _ _) (List.ne_nil_of_length_pos ?_)
  rw [length_slice hle]
  exact Nat.sub_pos_of_lt hlt

/-- A question mark and a parenthesis. -/
def questionParen : List UInt8 := [0x3F, 0x28]

/-- The question mark is a lookup before the parenthesis and an ordinary one alone, and with the
parenthesis it is not one token. -/
theorem answers_longest_questionParen :
    ∃ (l : Lexer Memory 2) (t : Token),
      ofSource ({ rest := questionParen } : Memory) { bufferSize := 2, version := .xpath31 } .xml =
        .ok l ∧
      l.answer 0 = .ok t ∧ t.kind = .symbol .lookup ∧
      ReadsAs .xpath31 [Ascii.question] (.symbol .questionMark) ∧
      ∀ kind, ¬ReadsAs .xpath31 questionParen kind := by
  obtain ⟨l, hof, hlongest⟩ :=
    answers_longest (Memory.faithful questionParen) (n := 2) (by decide) .xpath31
  obtain ⟨l₀, hof₀, hl, hphase⟩ :=
    follows_ofSource (Memory.faithful questionParen) (n := 2) (by decide) .xpath31 .xml
  obtain rfl : l = l₀ := Except.ok.inj (hof.symm.trans hof₀)
  have hleads : Leads .xpath31 [] (.symbol .lookup) [Ascii.question] [Ascii.leftParen] :=
    ⟨⟨[], .nil⟩, by decide, not_startsTrivia_cons (by decide) _, rfl⟩
  have htext : questionParen.drop ({} : Point).offset =
      [] ++ ([Ascii.question] ++ [Ascii.leftParen]) := rfl
  obtain ⟨t, q, hfound, heof, hkind, -, hspan, -⟩ := Plain.exists_look_of_leads hleads htext
  obtain ⟨l₁, hnext, -⟩ := hl.next_token (by simp [hphase])
    (Forecast.fits_of_length_lt (by decide) _) hfound
  have hanswer : l.answer 0 = .ok t := by rw [answer, hnext]
  obtain ⟨hreads, hlonger⟩ := hlongest 0 t hanswer heof
  rw [hspan] at hlonger
  rw [hspan, hkind] at hreads
  exact ⟨l, t, hof, hanswer, hkind, hreads, hlonger 2 (by decide) (by decide)⟩

end Lexer

end XPathScan
