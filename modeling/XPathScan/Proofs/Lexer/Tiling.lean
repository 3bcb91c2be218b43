import XPathScan.Proofs.Lexer.Run
import XPathScan.Proofs.Plain.Order

/-!
# The tokens tile the text

If a lexer comes to the end of its input without an error, then every byte of the text is in
exactly one of its tokens or in one of the gaps between them, and the gaps hold nothing but blanks
and comments. Put together in order, gaps and lexemes are the text again.

The tokens of a run lie one behind the other: each starts where some blanks and comments behind the
last one end, and takes at least one byte (`XPathScan.Tiles`). All that is said about spans, gaps
and lexemes follows from that, by induction on the tokens.

* `XPathScan.Plain.Emits.tiles` – the tokens of the plain lexer lie like this;
* `XPathScan.Lexer.emits_tiling` – what follows for the tokens of a lexer over a faithful source,
  whatever the size of its buffers.
-/

namespace XPathScan

variable {version : Version} {text : List UInt8} {p : Nat} {ts : List Token}

/-! ### Gaps -/

/-- **The gaps before, between and behind tokens**, from one offset to another. -/
def gaps (start stop : Nat) : List Token → List Span
  | [] => [{ start, stop }]
  | t :: ts => { start, stop := t.span.start } :: gaps t.span.stop stop ts

/-- **Two lists of parts, put together in turn**, from the first list on. -/
def weave : List (List UInt8) → List (List UInt8) → List UInt8
  | g :: gs, l :: ls => g ++ l ++ weave gs ls
  | gs, _ => gs.flatten

/-- **Tokens that lie one behind the other from an offset on**, up to the end of the text, with
nothing before, between and behind them but what is stepped over. -/
inductive Tiles (version : Version) (text : List UInt8) : Nat → List Token → Prop
  /-- Behind the last token. -/
  | nil {p : Nat} : p ≤ text.length →
      (∃ parts, Crossed .xml version (Span.slice { start := p, stop := text.length } text) parts) →
      Tiles version text p []
  /-- A token, and the others behind it. -/
  | cons {p : Nat} {t : Token} {ts : List Token} : p ≤ t.span.start →
      t.span.start < t.span.stop → t.span.stop ≤ text.length → t.lexeme = t.span.slice text →
      (∃ parts, Crossed .xml version (Span.slice { start := p, stop := t.span.start } text) parts) →
      Tiles version text t.span.stop ts → Tiles version text p (t :: ts)

/-- Two spans of which the second starts where the first ends. -/
theorem slice_append_slice {p q r : Nat} (hpq : p ≤ q) (hqr : q ≤ r) :
    Span.slice { start := p, stop := q } text ++ Span.slice { start := q, stop := r } text =
      Span.slice { start := p, stop := r } text := by
  unfold Span.slice
  simp only
  rw [show r - p = (q - p) + (r - q) by omega, List.take_add, List.drop_drop,
    show p + (q - p) = q by omega]

namespace Tiles

/-- No token starts before the offset, and each has a byte and lies in the text. -/
theorem bounds (h : Tiles version text p ts) : ∀ t ∈ ts,
    p ≤ t.span.start ∧ t.span.start < t.span.stop ∧ t.span.stop ≤ text.length := by
  induction h with
  | nil => simp
  | cons hp hlt hle _ _ _ ih =>
    intro u hu
    rcases List.mem_cons.mp hu with rfl | hu
    · exact ⟨hp, hlt, hle⟩
    · have := ih u hu
      omega

/-- Each lexeme is the text of its span. -/
theorem lexeme_eq (h : Tiles version text p ts) : ∀ t ∈ ts, t.lexeme = t.span.slice text := by
  induction h with
  | nil => simp
  | cons _ _ _ hlexeme _ _ ih =>
    intro u hu
    rcases List.mem_cons.mp hu with rfl | hu
    · exact hlexeme
    · exact ih u hu

/-- No lexeme is empty. -/
theorem lexeme_ne_nil (h : Tiles version text p ts) : ∀ t ∈ ts, t.lexeme ≠ [] := by
  intro t ht hnil
  obtain ⟨-, hlt, hle⟩ := h.bounds t ht
  have hlen := congrArg List.length ((h.lexeme_eq t ht).symm.trans hnil)
  simp only [Span.slice, List.length_take, List.length_drop, List.length_nil] at hlen
  omega

/-- **The spans are in order and do not overlap.** -/
theorem pairwise (h : Tiles version text p ts) :
    ts.Pairwise fun t u => t.span.stop ≤ u.span.start := by
  induction h with
  | nil => exact .nil
  | cons _ _ _ _ _ hrest ih => exact .cons (fun u hu => (hrest.bounds u hu).1) ih

/-- Each gap comes behind the offset, has its ends in order, and lies in the text. -/
theorem gap_bounds (h : Tiles version text p ts) : ∀ g ∈ gaps p text.length ts,
    p ≤ g.start ∧ g.start ≤ g.stop ∧ g.stop ≤ text.length := by
  induction h with
  | nil hp =>
    intro g hg
    obtain rfl := List.mem_singleton.mp hg
    exact ⟨Nat.le_refl _, hp, Nat.le_refl _⟩
  | cons hp hlt hle _ _ _ ih =>
    intro g hg
    rcases List.mem_cons.mp hg with rfl | hg
    · exact ⟨Nat.le_refl _, hp, Nat.le_of_lt (Nat.lt_of_lt_of_le hlt hle)⟩
    · have := ih g hg
      omega

/-- **The gaps hold nothing but what is stepped over.** -/
theorem gap_crossed (h : Tiles version text p ts) : ∀ g ∈ gaps p text.length ts,
    ∃ parts, Crossed .xml version (g.slice text) parts := by
  induction h with
  | nil _ hcrossed =>
    intro g hg
    obtain rfl := List.mem_singleton.mp hg
    exact hcrossed
  | cons _ _ _ _ hcrossed _ ih =>
    intro g hg
    rcases List.mem_cons.mp hg with rfl | hg
    · exact hcrossed
    · exact ih g hg

/-- **No token starts inside a gap.** -/
theorem not_start_in_gap (h : Tiles version text p ts) : ∀ t ∈ ts, ∀ g ∈ gaps p text.length ts,
    ¬(g.start ≤ t.span.start ∧ t.span.start < g.stop) := by
  induction h with
  | nil => simp
  | @cons p t ts hp hlt hle _ _ hrest ih =>
    intro u hu g hg
    rcases List.mem_cons.mp hu with rfl | hu
    · rcases List.mem_cons.mp hg with rfl | hg
      · simp
      · have := (hrest.gap_bounds g hg).1
        omega
    · rcases List.mem_cons.mp hg with rfl | hg
      · have := (hrest.bounds u hu).1
        show ¬(p ≤ u.span.start ∧ u.span.start < t.span.start)
        omega
      · exact ih u hu g hg

/-- **Gaps and lexemes in turn are the text.** -/
theorem weave_eq (h : Tiles version text p ts) :
    weave ((gaps p text.length ts).map (·.slice text)) (ts.map (·.lexeme)) =
      Span.slice { start := p, stop := text.length } text := by
  induction h with
  | nil => simp [gaps, weave]
  | @cons p t ts hp hlt hle hlexeme _ _ ih =>
    simp only [gaps, List.map_cons, weave]
    rw [ih, hlexeme, show t.span.slice text =
      Span.slice { start := t.span.start, stop := t.span.stop } text from rfl,
      slice_append_slice hp (Nat.le_of_lt hlt), slice_append_slice (by omega) hle]

end Tiles

/-! ### Tokens of a run -/

namespace Plain

/-- **The tokens of the plain lexer tile the text**, and the token of the end is empty. -/
theorem Emits.tiles {p : Point} {e : Token} (h : (Plain.of text .xml version).Emits p ts e)
    (hp : p.offset ≤ text.length) :
    Tiles version text p.offset ts ∧ e.lexeme = [] ∧
      e.span = { start := text.length, stop := text.length } := by
  induction h with
  | @eof p q e hfound heof =>
    have hsees := sees_of_found hp hfound
    obtain ⟨hstart, hstop⟩ := hsees.isEof_iff.1 heof
    refine ⟨.nil hp (hstart ▸ hsees.exists_crossed), ?_, ?_⟩
    · rw [hsees.lexeme_eq, hstart, hstop, Nat.sub_self, List.take_zero]
    · show Span.mk e.span.start e.span.stop = _
      rw [hstart, hstop]
  | @token p q t e ts hfound heof _ ih =>
    have hsees := sees_of_found hp hfound
    obtain ⟨htiles, hend⟩ := ih (by rw [hsees.offset_eq]; exact hsees.stop_le)
    refine ⟨.cons hsees.le_start (hsees.isEof_iff.2 heof) hsees.stop_le hsees.lexeme_eq
      hsees.exists_crossed (hsees.offset_eq ▸ htiles), hend⟩

end Plain

namespace Lexer

variable {σ : Type} [Source σ] {n : Nat}

/-- **Tokens that tile a text**, and the token that marks its end: what can be said of the lexemes,
the spans and the gaps. -/
structure Tiling (version : Version) (text : List UInt8) (ts : List Token) (e : Token) :
    Prop where
  /-- Every lexeme has a byte. -/
  lexeme_ne_nil : ∀ t ∈ ts, t.lexeme ≠ []
  /-- Every span lies in the text. -/
  span_in_text : ∀ t ∈ ts, t.span.start ≤ t.span.stop ∧ t.span.stop ≤ text.length
  /-- Every lexeme is the text of its span. -/
  lexeme_eq : ∀ t ∈ ts, t.lexeme = (text.drop t.span.start).take (t.span.stop - t.span.start)
  /-- The spans are in order and do not overlap. -/
  span_pairwise : ts.Pairwise fun t u => t.span.stop ≤ u.span.start
  /-- Every gap lies in the text. -/
  gap_in_text : ∀ g ∈ gaps 0 text.length ts, g.start ≤ g.stop ∧ g.stop ≤ text.length
  /-- Every gap holds nothing but blanks and comments, below 2³² levels of them. -/
  gap_isTrivia : ∀ g ∈ gaps 0 text.length ts, Shallow (g.slice text) →
    IsTrivia version (g.slice text)
  /-- No token starts inside a gap, neither the end. -/
  not_start_in_gap : ∀ t ∈ ts ++ [e], ∀ g ∈ gaps 0 text.length ts,
    ¬(g.start ≤ t.span.start ∧ t.span.start < g.stop)
  /-- The token of the end has no bytes. -/
  eof_lexeme : e.lexeme = []
  /-- The token of the end stands at the end of the text. -/
  eof_span : e.span = { start := text.length, stop := text.length }
  /-- Gaps and lexemes in turn are the text. -/
  weave_eq : weave ((gaps 0 text.length ts).map (·.slice text)) (ts.map (·.lexeme)) = text

/-- **The tokens of a lexer tile the text of its source**, if it comes to the end. -/
theorem emits_tiling {source : σ} (hsource : Source.Faithful source text) (hn : 0 < n)
    (version : Version) :
    ∃ l : Lexer σ n, ofSource source { bufferSize := n, version } .xml = .ok l ∧
      ∀ ts e, l.Emits ts e → Tiling version text ts e := by
  obtain ⟨l, hof, hl, hphase⟩ := follows_ofSource hsource hn version .xml
  refine ⟨l, hof, fun ts e hemits => ?_⟩
  obtain ⟨htiles, heof, hspan⟩ := (hemits.plain hl (by simp [hphase])).tiles (Nat.zero_le _)
  constructor
  case lexeme_ne_nil => exact htiles.lexeme_ne_nil
  case span_in_text =>
    intro t ht
    obtain ⟨-, hlt, hle⟩ := htiles.bounds t ht
    exact ⟨Nat.le_of_lt hlt, hle⟩
  case lexeme_eq => exact htiles.lexeme_eq
  case span_pairwise => exact htiles.pairwise
  case gap_in_text => exact fun g hg => (htiles.gap_bounds g hg).2
  case gap_isTrivia =>
    intro g hg hshallow
    obtain ⟨parts, hparts⟩ := htiles.gap_crossed g hg
    exact (hparts.isGap hshallow).isTrivia
  case not_start_in_gap =>
    intro t ht g hg
    rcases List.mem_append.mp ht with ht | ht
    · exact htiles.not_start_in_gap t ht g hg
    · obtain rfl := List.mem_singleton.mp ht
      have := (htiles.gap_bounds g hg).2.2
      rw [hspan]
      show ¬(g.start ≤ text.length ∧ text.length < g.stop)
      omega
  case eof_lexeme => exact heof
  case eof_span => exact hspan
  case weave_eq =>
    refine htiles.weave_eq.trans ?_
    exact List.take_length

/-- A blank, a comment with a parenthesis in it, a plus sign and a blank. -/
def plusBehindComment : List UInt8 := [0x20, 0x28, 0x3A, 0x29, 0x3A, 0x29, 0x2B, 0x20]

/-- The text through buffers of two bytes: the comment alone is longer than the window. -/
theorem emits_tiling_plusBehindComment :
    ∃ (l : Lexer Memory 2) (t e : Token),
      ofSource ({ rest := plusBehindComment } : Memory) { bufferSize := 2, version := .xpath20 }
        .xml = .ok l ∧
      l.Emits [t] e ∧ t.lexeme = [Ascii.plus] ∧ Tiling .xpath20 plusBehindComment [t] e ∧
      ∀ g ∈ gaps 0 8 [t], IsTrivia .xpath20 (g.slice plusBehindComment) := by
  obtain ⟨l, hof, htiling⟩ :=
    emits_tiling (Memory.faithful plusBehindComment) (n := 2) (by decide) .xpath20
  obtain ⟨l', hof', hl, hphase⟩ :=
    follows_ofSource (Memory.faithful plusBehindComment) (n := 2) (by decide) .xpath20 .xml
  obtain rfl : l = l' := Except.ok.inj (hof.symm.trans hof')
  have hfirst : Trivia.extent .xml .xpath20 .none plusBehindComment = .ok (⟨5⟩, 6) := by
    rw [plusBehindComment]
    rw [Trivia.extent, if_pos (by decide), Trivia.extent, if_neg (by decide), if_pos (by decide)]
    show Trivia.shift 1 (Trivia.shift 5 (Trivia.extent .xml .xpath20 _ [0x2B, 0x20])) = _
    rw [Trivia.extent, if_neg (by decide), if_neg (by decide)]
    rfl
  have hsecond : Trivia.extent .xml .xpath20 .none [Ascii.space] = .ok (⟨1⟩, 1) := by
    rw [Trivia.extent, if_pos (by decide), Trivia.extent]
    rfl
  -- Both calls look at no more than one byte, which fits into any window.
  have hplus := Plain.look_of_extent (s := .of plusBehindComment .xml .xpath20) (p := {}) hfirst
  obtain ⟨l₁, hnext₁, hl₁, hphase₁⟩ := hl.next_token (by simp [hphase])
    (Forecast.fits_of_reach_le (by decide) (by rw [hplus]; decide) _)
    (congrArg Forecast.found hplus)
  have hend := Plain.look_of_extent
    (s := .of plusBehindComment .xml .xpath20)
    (p := (Point.pastGap {} plusBehindComment 6).pastToken plusBehindComment 1) hsecond
  obtain ⟨l₂, hnext₂, -⟩ := hl₁.next_token (by rw [hphase₁, hphase]; decide)
    (Forecast.fits_of_reach_le (by decide) (by rw [hend]; decide) _) (congrArg Forecast.found hend)
  have hemits := Emits.token hnext₁ (by decide) (.eof hnext₂ (by decide))
  have hshallow : Shallow plusBehindComment := .of_length_lt (by decide)
  exact ⟨l, _, _, hof, hemits, by decide, htiling _ _ hemits,
    fun g hg => (htiling _ _ hemits).gap_isTrivia g hg (hshallow.slice g)⟩

end Lexer

end XPathScan
