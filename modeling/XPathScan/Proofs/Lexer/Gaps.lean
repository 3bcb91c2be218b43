import XPathScan.Proofs.Lexer.Content
import XPathScan.Proofs.Lexer.Tiling

/-!
# What stands between two tokens hardly matters

If a gap behind a token is not empty, it can be filled with any other blanks and comments, as long
as it does not become empty. The text has the same tokens then, of the same kinds – with one
exception. A question mark is a lookup where a parenthesis comes directly behind it, and the
parenthesis may be that of a comment. So the kind of a question mark changes if a comment comes in
or goes away directly behind it, in the versions that have lookups.

* `XPathScan.Plain.Emits.spells_fill` – what a text spells with another gap in it;
* `XPathScan.Lexer.tokenize_fill` – the tokens of the text, and when all kinds are kept.
-/

namespace XPathScan

variable {version : Version} {text g : List UInt8}

/-! ### Gaps behind tokens -/

/-- Where a gap ends that some tokens stand behind: at the first of them, or at the end of the
text. -/
def gapStop (text : List UInt8) : List Token → Nat
  | [] => text.length
  | t :: _ => t.span.start

/-- **The gap behind a token** which is followed by some others. -/
def gapBehind (text : List UInt8) (t : Token) (ts : List Token) : Span where
  start := t.span.stop
  stop := gapStop text ts

/-- **A text with other bytes in a span.** -/
def Span.fill (s : Span) (bytes text : List UInt8) : List UInt8 :=
  text.take s.start ++ (bytes ++ text.drop s.stop)

/-- What is stepped over starts with a separator. -/
theorem Crossed.exists_separator {parts : List GapPart} (h : Crossed .xml version g parts)
    (hne : g ≠ []) : ∃ b ∈ separators, ∃ t, g = b :: t := by
  cases h with
  | nil => exact absurd rfl hne
  | @blank b t parts hb _ =>
    have hmem : b ∈ [Ascii.space, Ascii.tab, Ascii.carriageReturn, Ascii.lineFeed] := by
      simpa [ByteClass.xml, or_assoc] using hb
    exact ⟨b, List.mem_append_left [Ascii.leftParen] hmem, t, rfl⟩
  | comment _ _ hc _ =>
    obtain ⟨t, -, rfl⟩ := hc
    exact ⟨Ascii.leftParen, by decide, _, rfl⟩

namespace Plain

variable {p q : Point} {t e : Token} {ts us vs : List Token} {parts : List GapPart}

/-- **The gap before the tokens ahead** is in the text and is stepped over. -/
theorem Emits.gap (h : (Plain.of text .xml version).Emits p ts e) (hp : p.offset ≤ text.length) :
    p.offset ≤ gapStop text ts ∧ gapStop text ts ≤ text.length ∧
      ∃ parts, Crossed .xml version
        (Span.slice { start := p.offset, stop := gapStop text ts } text) parts := by
  rcases h with ⟨hfound, heof⟩ | ⟨hfound, -, -⟩
  · have hsees := sees_of_found hp hfound
    have hcrossed := hsees.exists_crossed
    rw [(hsees.isEof_iff.1 heof).1] at hcrossed
    exact ⟨hp, Nat.le_refl _, hcrossed⟩
  · have hsees := sees_of_found hp hfound
    exact ⟨hsees.le_start, Nat.le_trans hsees.start_le hsees.stop_le,
      hsees.exists_crossed⟩

/-- **Other blanks and comments before the tokens ahead** do not change them. -/
theorem Emits.spells_behind (h : (Plain.of text .xml version).Emits p ts e)
    (hp : p.offset ≤ text.length) (hg : Crossed .xml version g parts) :
    Spells version (g ++ text.drop (gapStop text ts)) (ts.map (·.content)) := by
  rcases h with ⟨hfound, heof⟩ | @⟨_, q, t, _, ts, hfound, heof, hrest⟩
  · rw [gapStop, List.drop_length, List.append_nil]
    exact .nil ⟨parts, hg⟩
  · have hsees := sees_of_found hp hfound
    have hspells := hrest.spells hsees.offset_le
    have htext : t.lexeme ++ text.drop t.span.stop = text.drop t.span.start :=
      hsees.lexeme_append_drop
    rw [hsees.offset_eq] at hspells
    rw [gapStop, ← htext]
    exact .cons { (hsees.leads heof).2 with crossed := ⟨parts, hg⟩ } hspells

/-- **What a text spells with other blanks and comments in the gap behind a token.** Only the kind
of that token may change. -/
theorem Emits.spells_fill (h : (Plain.of text .xml version).Emits p (us ++ t :: vs) e)
    (hp : p.offset ≤ text.length) (hg : Crossed .xml version g parts) (hne : g ≠ []) :
    Spells version
      (Span.slice { start := p.offset, stop := t.span.stop } text ++
        (g ++ text.drop (gapStop text vs)))
      (us.map (·.content) ++
        (Reading.kindBefore (.ofVersion version) t.lexeme t.kind g, t.lexeme) ::
          vs.map (·.content)) := by
  obtain ⟨b, hb, g', rfl⟩ := hg.exists_separator hne
  have hends : EndsLike (text.drop t.span.stop) (b :: g' ++ text.drop (gapStop text vs)) :=
    .of_mem_separators hb _
  induction us generalizing p with
  | nil =>
    rcases h with _ | @⟨_, q, _, _, _, hfound, heof, hrest⟩
    have hsees := sees_of_found hp hfound
    have hleads := (hsees.leads heof).2
    have hparts : Span.slice { start := p.offset, stop := t.span.start } text ++ t.lexeme =
        Span.slice { start := p.offset, stop := t.span.stop } text := by
      rw [hsees.lexeme_eq]
      exact slice_append_slice hsees.le_start hsees.start_le
    have hkind : Reading.kindBefore (.ofVersion version) t.lexeme t.kind (b :: g') =
        Reading.kindBefore (.ofVersion version) t.lexeme t.kind
          (b :: g' ++ text.drop (gapStop text vs)) := Reading.kindBefore_congr rfl
    rw [← hparts, List.append_assoc, hkind]
    exact .cons (hleads.exchange hleads.crossed hends) (hrest.spells_behind hsees.offset_le hg)
  | cons v us ih =>
    rcases h with _ | @⟨_, q, _, _, _, hfound, heof, hrest⟩
    have hsees := sees_of_found hp hfound
    have hleads := (hsees.leads heof).2
    obtain ⟨hle, hlt, hstop⟩ := (hrest.tiles hsees.offset_le).1.bounds t (by simp)
    have hspells := ih hrest hsees.offset_le
    rw [hsees.offset_eq] at hspells hle
    have hvt : v.span.stop ≤ t.span.stop := by omega
    have hparts : Span.slice { start := p.offset, stop := v.span.start } text ++ v.lexeme ++
        Span.slice { start := v.span.stop, stop := t.span.stop } text =
        Span.slice { start := p.offset, stop := t.span.stop } text := by
      have hstart := hsees.le_start
      have hv := hsees.start_le
      rw [hsees.lexeme_eq, ← slice_append_slice (by omega : p.offset ≤ v.span.stop) hvt,
        ← slice_append_slice hstart hv]
      rfl
    -- Before the gap there is at least the first byte of the token, which stays.
    obtain ⟨a, w, hw⟩ : ∃ a w,
        Span.slice { start := v.span.stop, stop := t.span.stop } text = a :: w := by
      refine List.exists_cons_of_ne_nil (List.ne_nil_of_length_pos ?_)
      rw [length_slice hstop]
      omega
    have hbehind : text.drop v.span.stop = a :: w ++ text.drop t.span.stop := by
      rw [← hw, slice_append_drop hvt]
    rw [hbehind] at hleads
    rw [hw] at hspells hparts
    rw [← hparts, List.append_assoc, List.append_assoc]
    exact .cons (hleads.exchange_rest (hends.append (a :: w)) rfl) hspells

/-- The last ones of some tokens are given from a point in the text on. -/
theorem Emits.of_append {s : Plain} (h : s.Emits p (us ++ ts) e) (hp : p.offset ≤ s.text.length) :
    ∃ q, q.offset ≤ s.text.length ∧ s.Emits q ts e := by
  induction us generalizing p with
  | nil => exact ⟨p, hp, h⟩
  | cons u us ih =>
    rcases h with _ | ⟨hfound, -, hrest⟩
    exact ih hrest (sees_of_found hp hfound).offset_le

/-- **The gap behind a token is stepped over**, and if it is not empty, the token has its kind because
of it. -/
theorem Emits.gapBehind_crossed (h : (Plain.of text .xml version).Emits p (us ++ t :: vs) e)
    (hp : p.offset ≤ text.length)
    (hgap : (gapBehind text t vs).start < (gapBehind text t vs).stop) :
    (∃ parts, Crossed .xml version ((gapBehind text t vs).slice text) parts) ∧
      (gapBehind text t vs).slice text ≠ [] ∧
      Reading.kindBefore (.ofVersion version) t.lexeme t.kind ((gapBehind text t vs).slice text) =
        t.kind := by
  obtain ⟨p, hp, h⟩ := h.of_append hp
  rcases h with _ | ⟨hfound, heof, hrest⟩
  have hsees := sees_of_found hp hfound
  obtain ⟨hle, hlen, hcrossed⟩ := hrest.gap hsees.offset_le
  rw [hsees.offset_eq] at hle hcrossed
  have hne : (gapBehind text t vs).slice text ≠ [] := by
    refine List.ne_nil_of_length_pos ?_
    rw [gapBehind, length_slice hlen]
    exact Nat.sub_pos_of_lt hgap
  have hbehind : text.drop t.span.stop =
      (gapBehind text t vs).slice text ++ text.drop (gapStop text vs) :=
    (slice_append_drop hle text).symm
  refine ⟨hcrossed, hne, ?_⟩
  -- The first byte behind the token is that of the gap.
  obtain ⟨b, g, hbg⟩ := List.exists_cons_of_ne_nil hne
  have hkind := Reading.kindBefore_eq (hsees.leads heof).2.read
  rw [hbehind, hbg] at hkind
  rw [hbg]
  exact (Reading.kindBefore_congr rfl).trans hkind

end Plain

/-! ### Question marks before a gap -/

namespace Reading

variable {d : Dialect} {u g' : List UInt8} {kind : Kind} {parts parts' : List GapPart}

/-- **A question mark before a gap** is a lookup if the gap starts with a comment. -/
theorem questionKind_of_crossed (hg : Crossed .xml version g parts) (hne : g ≠ []) :
    questionKind d g =
      if d.supports .lookupOperator = true ∧ g.head? = some Ascii.leftParen then .symbol .lookup
      else .symbol .questionMark := by
  obtain ⟨b, hb, t, rfl⟩ := hg.exists_separator hne
  have hinert : Inert fun b => Scan.startsKey .xml b != (b == Ascii.leftParen) := rfl
  have hkey : Scan.startsKey .xml b = (b == Ascii.leftParen) := by
    simpa using hinert.eq_false hb
  simp [questionKind, hkey]

/-- **Two gaps give the token before them the same kind**, unless it is a question mark, the version
has lookups, and just one of the gaps starts with a comment. -/
theorem kindBefore_eq_iff (hg : Crossed .xml version g parts) (hne : g ≠ [])
    (hg' : Crossed .xml version g' parts') (hne' : g' ≠ []) :
    kindBefore (.ofVersion version) u kind g = kindBefore (.ofVersion version) u kind g' ↔
      (u = [Ascii.question] → .xpath30 ≤ version →
        (g.head? = some Ascii.leftParen ↔ g'.head? = some Ascii.leftParen)) := by
  have hlookup : (Dialect.ofVersion version).supports .lookupOperator = true ↔
      .xpath30 ≤ version := decide_eq_true_iff
  rw [kindBefore, kindBefore]
  by_cases hu : u = [Ascii.question]
  · rw [if_pos hu, if_pos hu, questionKind_of_crossed hg hne, questionKind_of_crossed hg' hne']
    simp only [hlookup, hu, forall_const]
    by_cases hversion : Version.xpath30 ≤ version
    · by_cases hhead : g.head? = some Ascii.leftParen <;>
        by_cases hhead' : g'.head? = some Ascii.leftParen <;> simp [hversion, hhead, hhead']
    · simp [hversion]
  · simp [hu]

end Reading

/-! ### Filling a gap -/

namespace Lexer

variable {us vs ts : List Token} {t : Token}

/-- **The tokens of a text with another gap in it.** Where there are blanks and comments behind a
token of a text, any others can be put there, as long as no comment of them is nested 2³² deep. The
text then has tokens with the same bytes, and all but the one before the gap have the same kinds.
That one has too, unless it is a question mark, the version has lookups, and one of the two gaps
starts with a comment while the other one does not. -/
theorem tokenize_fill (htokens : tokenize text version = .ok (us ++ t :: vs))
    (hgap : (gapBehind text t vs).start < (gapBehind text t vs).stop)
    (hg : IsTrivia version g) (hshallow : Shallow g) (hne : g ≠ []) :
    ∃ ts kind, tokenize ((gapBehind text t vs).fill g text) version = .ok ts ∧
      ts.map (·.content) =
        us.map (·.content) ++ (kind, t.lexeme) :: vs.map (·.content) ∧
      (kind = t.kind ↔ (t.lexeme = [Ascii.question] → .xpath30 ≤ version →
        (g.head? = some Ascii.leftParen ↔
          ((gapBehind text t vs).slice text).head? = some Ascii.leftParen))) := by
  obtain ⟨e, hemits⟩ := emits_of_tokenize htokens
  obtain ⟨parts, hparts⟩ := hg.isGap.exists_crossed hshallow
  have hspells := hemits.spells_fill (Nat.zero_le _) hparts hne
  obtain ⟨ts, hts, hcontents⟩ := tokenize_iff_spells.mpr hspells
  obtain ⟨⟨parts', hparts'⟩, hne', hkind⟩ := hemits.gapBehind_crossed (Nat.zero_le _) hgap
  refine ⟨ts, _, hts, hcontents, ?_⟩
  rw [← Reading.kindBefore_eq_iff hparts hne hparts' hne', hkind]

/-- A question mark, a blank and a comma. -/
def questionComma : List UInt8 := [0x3F, 0x20, 0x2C]

/-- The question mark is none that looks up, and the blank is the gap behind it. -/
theorem exists_tokenize_questionComma :
    ∃ t u, tokenize questionComma .xpath31 = .ok ([] ++ t :: [u]) ∧
      gapBehind questionComma t [u] = { start := 1, stop := 2 } ∧
      t.content = (.symbol .questionMark, [Ascii.question]) := by
  have hquestion : Leads .xpath31 [] (.symbol .questionMark) [Ascii.question]
      [Ascii.space, Ascii.comma] := ⟨⟨[], .nil⟩, by decide, not_startsTrivia_cons (by decide) _, rfl⟩
  have hcomma : Leads .xpath31 [Ascii.space] (.symbol .comma) [Ascii.comma] [] :=
    ⟨⟨_, .blank (by decide) .nil⟩, by decide, not_startsTrivia_cons (by decide) _, rfl⟩
  have hfirst : questionComma.drop ({} : Point).offset =
      [] ++ ([Ascii.question] ++ [Ascii.space, Ascii.comma]) := rfl
  obtain ⟨t, q, hfound, heof, hkind, hlexeme, hspan, hq⟩ :=
    Plain.exists_look_of_leads hquestion hfirst
  have hsecond : questionComma.drop q.offset = [Ascii.space] ++ ([Ascii.comma] ++ []) := by
    rw [hq]
    rfl
  obtain ⟨u, r, hfound', heof', -, -, hspan', hr⟩ := Plain.exists_look_of_leads hcomma hsecond
  have hrest : Crossed .xml .xpath31 (questionComma.drop r.offset) [] := by
    rw [hr, hq]
    exact .nil
  obtain ⟨e, q', hend, heof''⟩ := Plain.exists_look_of_crossed ⟨_, hrest⟩
  have hemits := Plain.Emits.token hfound heof (.token hfound' heof' (.eof hend heof''))
  refine ⟨t, u, tokenize_eq_ok_of_emits hemits, ?_, ?_⟩
  · rw [gapBehind, gapStop, hspan, hspan', hq]
    rfl
  · rw [Token.content, hkind, hlexeme]

/-- **Not every gap can be filled with every other one**: the comment makes the question mark a
lookup. -/
theorem not_forall_tokenize_fill :
    ¬∀ (version : Version) (text g : List UInt8) (us vs : List Token) (t : Token),
      tokenize text version = .ok (us ++ t :: vs) →
      (gapBehind text t vs).start < (gapBehind text t vs).stop → IsTrivia version g → g ≠ [] →
      ∃ ts, tokenize ((gapBehind text t vs).fill g text) version = .ok ts ∧
        ts.map (·.content) = (us ++ t :: vs).map (·.content) := by
  intro hall
  obtain ⟨t, u, htokens, hgap, hcontent⟩ := exists_tokenize_questionComma
  have hg : IsTrivia .xpath31 [0x28, 0x3A, 0x3A, 0x29] :=
    .comment (by decide) ⟨[], .nil, rfl⟩ .nil
  obtain ⟨ts, hts, hsame⟩ := hall _ _ _ _ _ _ htokens (by rw [hgap]; decide) hg (by decide)
  obtain ⟨e, hemits⟩ := emits_of_tokenize htokens
  obtain ⟨parts, hparts⟩ := hg.isGap.exists_crossed (.of_length_lt (by decide))
  obtain ⟨ts', hts', hother⟩ :=
    tokenize_iff_spells.mpr (hemits.spells_fill (Nat.zero_le _) hparts (by decide))
  obtain rfl : ts = ts' := Except.ok.inj (hts.symm.trans hts')
  have hkind := (Prod.mk.inj (List.cons.inj (hsame.symm.trans hother)).1).1
  obtain ⟨hquestion, hlexeme⟩ := Prod.mk.inj hcontent
  rw [hlexeme, hquestion] at hkind
  exact absurd hkind (by decide)

/-- The comment between the question mark and the comma, where a blank was: both tokens are still
there, and the first one is of another kind. -/
theorem tokenize_fill_questionComma :
    ∃ t u ts kind, tokenize questionComma .xpath31 = .ok ([] ++ t :: [u]) ∧
      tokenize [0x3F, 0x28, 0x3A, 0x3A, 0x29, 0x2C] .xpath31 = .ok ts ∧
      ts.map (·.content) = [(kind, [Ascii.question]), u.content] ∧ kind ≠ t.kind := by
  obtain ⟨t, u, htokens, hgap, hcontent⟩ := exists_tokenize_questionComma
  obtain ⟨hquestion, hlexeme⟩ := Prod.mk.inj hcontent
  obtain ⟨ts, kind, hts, hcontents, hkind⟩ :=
    tokenize_fill (g := [0x28, 0x3A, 0x3A, 0x29]) htokens (by rw [hgap]; decide)
      (.comment (by decide) ⟨[], .nil, rfl⟩ .nil) (.of_length_lt (by decide)) (by decide)
  rw [hgap] at hts hkind
  rw [hlexeme] at hcontents hkind
  refine ⟨t, u, ts, kind, htokens, hts, hcontents, fun hsame => ?_⟩
  exact absurd (hkind.mp hsame rfl (by decide)) (by decide)

end Lexer

end XPathScan
