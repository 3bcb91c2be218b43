import XPathScan.Proofs.Lexer.Run
import XPathScan.Proofs.Plain.Leads

/-!
# A token depends on two bytes behind it at most

Two texts that start alike have the same tokens there. To be precise: if they agree in their first
`k` bytes, they have the same tokens among those that end two bytes before `k` or earlier, down to
the last field. What comes further behind may be anything, and it may be that one of the texts is
malformed there, or at its end.

The two bytes are needed. After a name comes a colon and after the colon a byte that starts a name
or does not, and only this byte says where the first name ends.

* `XPathScan.Plain.look_congr` – what is seen does not depend on what is further behind;
* `XPathScan.Plain.tokensBefore_congr` – the same of all tokens from a point on;
* `XPathScan.Lexer.answers_lookahead` – the same of lexers over faithful sources.
-/

namespace XPathScan

variable {version : Version} {g u rest rest' text text' : List UInt8} {kind : Kind} {k : Nat}

/-- **The tokens among some answers** before the end and before the first error, at most `limit` of
them. -/
def tokensBefore (answers : Nat → Except LexError Token) : (limit : Nat) → List Token
  | 0 => []
  | limit + 1 =>
    match answers 0 with
    | .error _ => []
    | .ok t => if t.isEof then [] else t :: tokensBefore (fun i => answers (i + 1)) limit

/-- **The tokens that end two bytes before an offset or earlier.** -/
def endingBefore (k : Nat) (ts : List Token) : List Token :=
  ts.filter fun t => decide (t.span.stop + 2 ≤ k)

/-! ### Texts that start alike -/

/-- A span is the same in two texts that agree so far. -/
theorem slice_congr (h : text.take k = text'.take k) {i j : Nat} (hj : j ≤ k) :
    Span.slice { start := i, stop := j } text = Span.slice { start := i, stop := j } text' := by
  have htake : text.take j = text'.take j := by
    simpa [List.take_take, Nat.min_eq_left hj] using congrArg (List.take j) h
  simp only [Span.slice, ← List.drop_take, htake]

/-- A byte is the same in two texts that agree so far. -/
theorem getElem?_congr (h : text.take k = text'.take k) {i : Nat} (hi : i < k) :
    text[i]? = text'[i]? := by
  rw [← List.getElem?_take_of_lt hi, h, List.getElem?_take_of_lt hi]

namespace Plain

variable {p q : Point} {t : Token}

/-- **What is seen is made of its parts**, and nothing else of the text. -/
theorem look_found_congr (h : Leads version g kind u rest) (h' : Leads version g kind u rest')
    (htext : text.drop p.offset = g ++ (u ++ rest))
    (htext' : text'.drop p.offset = g ++ (u ++ rest')) :
    ((Plain.of text .xml version).look p).found = ((Plain.of text' .xml version).look p).found := by
  obtain ⟨trivia, hlook⟩ := exists_look_eq h.crossed
  rw [hlook htext h.not_startsTrivia, hlook htext' h'.not_startsTrivia, h.read, h'.read]
  have hgap : p.pastGap text g.length = p.pastGap text' g.length := by
    rw [Point.pastGap, Point.pastGap, htext, htext', List.take_left, List.take_left]
  have htoken : ∀ {text rest : List UInt8}, text.drop p.offset = g ++ (u ++ rest) →
      (text.drop (p.offset + g.length)).take u.length = u := by
    intro text rest htext
    rw [← List.drop_drop, htext, List.drop_left, List.take_left]
  simp only [readToken, tokenAt, Point.pastToken, hgap, Point.pastGap_offset, htoken htext,
    htoken htext']

/-- **A token that is seen is seen in every text that agrees** up to two bytes behind it. -/
theorem look_congr (h : text.take k = text'.take k) (hp : p.offset ≤ text.length)
    (hfound : ((Plain.of text .xml version).look p).found = .ok (t, q)) (heof : t.isEof = false)
    (hstop : t.span.stop + 2 ≤ k) :
    ((Plain.of text' .xml version).look p).found = .ok (t, q) := by
  have hsees := sees_of_found hp hfound
  obtain ⟨htext, hleads⟩ := hsees.leads heof
  have hbehind : ∀ i < 2, (text.drop t.span.stop)[i]? = (text'.drop t.span.stop)[i]? := by
    intro i hi
    rw [List.getElem?_drop, List.getElem?_drop, getElem?_congr h (by omega)]
  have hends : EndsLike (text.drop t.span.stop) (text'.drop t.span.stop) :=
    .of_getElem? fun i hi b hb => (hbehind i hi).trans hb
  have hhead : (text.drop t.span.stop).head? = (text'.drop t.span.stop).head? := by
    simpa only [List.head?_eq_getElem?] using hbehind 0 (by decide)
  have hlexeme : t.lexeme = Span.slice { start := t.span.start, stop := t.span.stop } text :=
    hsees.lexeme_eq
  have htext' : text'.drop p.offset =
      Span.slice { start := p.offset, stop := t.span.start } text ++
        (t.lexeme ++ text'.drop t.span.stop) := by
    have hstart := hsees.start_le
    have hgap := slice_congr (i := p.offset) h (show t.span.start ≤ k by omega)
    have htoken := slice_congr (i := t.span.start) h (show t.span.stop ≤ k by omega)
    rw [hlexeme, htoken, hgap, slice_append_drop hstart, slice_append_drop hsees.le_start]
  rw [← look_found_congr hleads (hleads.exchange_rest hends hhead) htext htext', hfound]

/-- The tokens from a point on, by what is seen there. -/
theorem tokensBefore_succ (s : Plain) (p : Point) (limit : Nat) :
    tokensBefore (s.answer p) (limit + 1) =
      match (s.look p).found with
      | .error _ => []
      | .ok (t, q) => if t.isEof then [] else t :: tokensBefore (s.answer q) limit := by
  rw [tokensBefore, answer]
  rcases hfound : (s.look p).found with e | ⟨t, q⟩
  · rfl
  · have hrest : (fun i => s.answer p (i + 1)) = s.answer q := by
      funext i
      rw [answer, hfound]
    simp only [Except.map, hrest]

/-- The tokens from a point on end behind it. -/
theorem offset_le_of_mem_tokensBefore {s : Plain} (hp : p.offset ≤ s.text.length) {limit : Nat} :
    ∀ t ∈ tokensBefore (s.answer p) limit, p.offset ≤ t.span.stop := by
  induction limit generalizing p with
  | zero => simp [tokensBefore]
  | succ limit ih =>
    rw [tokensBefore_succ]
    rcases hfound : (s.look p).found with e | ⟨t, q⟩
    · simp
    · have hsees := sees_of_found hp hfound
      have hstart := hsees.le_start
      have hstop := hsees.start_le
      simp only
      split
      · simp
      · intro u hu
        rcases List.mem_cons.mp hu with rfl | hu
        · omega
        · have := ih hsees.offset_le u hu
          have := hsees.offset_eq
          omega

/-- **If the next token ends too late, so do all others.** -/
theorem endingBefore_eq_nil {s : Plain} (hp : p.offset ≤ s.text.length) (limit : Nat)
    (hlate : ∀ t q, (s.look p).found = .ok (t, q) → t.isEof = false → ¬t.span.stop + 2 ≤ k) :
    endingBefore k (tokensBefore (s.answer p) limit) = [] := by
  cases limit with
  | zero => rfl
  | succ limit =>
    rw [tokensBefore_succ]
    rcases hfound : (s.look p).found with e | ⟨t, q⟩
    · rfl
    · simp only
      split
      · rfl
      · next heof =>
        have hsees := sees_of_found hp hfound
        have hstop := hlate t q hfound (by simpa using heof)
        refine List.filter_eq_nil_iff.mpr fun u hu => ?_
        rw [decide_eq_true_iff]
        rcases List.mem_cons.mp hu with rfl | hu
        · exact hstop
        · have := offset_le_of_mem_tokensBefore hsees.offset_le u hu
          have := hsees.offset_eq
          omega

/-- **Two texts that agree in their first bytes have the same tokens there**, from any point on. -/
theorem tokensBefore_congr (h : text.take k = text'.take k) (hk : k ≤ text.length)
    (hk' : k ≤ text'.length) (hp : p.offset ≤ k) (limit : Nat) :
    endingBefore k (tokensBefore ((Plain.of text .xml version).answer p) limit) =
      endingBefore k (tokensBefore ((Plain.of text' .xml version).answer p) limit) := by
  induction limit generalizing p with
  | zero => rfl
  | succ limit ih =>
    have hlen : p.offset ≤ text.length := Nat.le_trans hp hk
    have hlen' : p.offset ≤ text'.length := Nat.le_trans hp hk'
    by_cases hnear : ∃ t q, ((Plain.of text .xml version).look p).found = .ok (t, q) ∧
        t.isEof = false ∧ t.span.stop + 2 ≤ k
    · -- The next token is seen in both texts, and the others come behind it.
      obtain ⟨t, q, hfound, heof, hstop⟩ := hnear
      have hfound' := look_congr h hlen hfound heof hstop
      have hq := (sees_of_found hlen hfound).offset_eq
      rw [tokensBefore_succ, tokensBefore_succ, hfound, hfound']
      simp only [heof, Bool.false_eq_true, if_false]
      have hrest := ih (p := q) (by omega)
      simp only [endingBefore, List.filter_cons, decide_eq_true hstop, if_true] at hrest ⊢
      rw [hrest]
    · -- No token ends early enough in one of the texts, so none does in the other.
      rw [endingBefore_eq_nil hlen _ fun t q hfound heof hstop =>
        hnear ⟨t, q, hfound, heof, hstop⟩]
      rw [endingBefore_eq_nil hlen' _ fun t q hfound heof hstop =>
        hnear ⟨t, q, look_congr h.symm hlen' hfound heof hstop, heof, hstop⟩]

end Plain

namespace Lexer

variable {σ τ : Type} [Source σ] [Source τ] {n m : Nat}

/-- **A token depends on two bytes behind it at most.** If two texts agree in their first `k` bytes,
lexers over them give the same tokens among those that end two bytes before `k` or earlier, as long
as their windows do not overflow. -/
theorem answers_lookahead {source : σ} {source' : τ} (hsource : Source.Faithful source text)
    (hsource' : Source.Faithful source' text') (hn : 0 < n) (hm : 0 < m) (version : Version)
    (hk : k ≤ text.length) (hk' : k ≤ text'.length) (hagree : text.take k = text'.take k) :
    ∃ (l : Lexer σ n) (l' : Lexer τ m),
      ofSource source { bufferSize := n, version } .xml = .ok l ∧
      ofSource source' { bufferSize := m, version } .xml = .ok l' ∧
      ((∀ i, ¬Overflows (l.answer i)) → (∀ i, ¬Overflows (l'.answer i)) → ∀ limit,
        endingBefore k (tokensBefore l.answer limit) =
          endingBefore k (tokensBefore l'.answer limit)) := by
  obtain ⟨l, hof, hl, hphase⟩ := follows_ofSource hsource hn version .xml
  obtain ⟨l', hof', hl', hphase'⟩ := follows_ofSource hsource' hm version .xml
  refine ⟨l, l', hof, hof', fun hno hno' limit => ?_⟩
  have hplain : l.answer = (Plain.of text .xml version).answer {} := by
    funext i
    exact hl.answer_eq (by simp [hphase]) fun j _ => hno j
  have hplain' : l'.answer = (Plain.of text' .xml version).answer {} := by
    funext i
    exact hl'.answer_eq (by simp [hphase']) fun j _ => hno' j
  rw [hplain, hplain']
  exact Plain.tokensBefore_congr hagree hk hk' (Nat.zero_le k) limit

/-- A plus sign, two blanks and a digit. -/
def plusDigit : List UInt8 := [0x2B, 0x20, 0x20, 0x31]

/-- A plus sign, two blanks and a quote that nothing closes. -/
def plusQuote : List UInt8 := [0x2B, 0x20, 0x20, 0x27]

/-- The plus sign is the same in both texts, of which the second one is malformed. -/
theorem answers_lookahead_plus :
    ∃ (l l' : Lexer Memory 3) (t : Token),
      ofSource ({ rest := plusDigit } : Memory) { bufferSize := 3, version := .xpath10 } .xml =
        .ok l ∧
      ofSource ({ rest := plusQuote } : Memory) { bufferSize := 3, version := .xpath10 } .xml =
        .ok l' ∧
      l.answer 0 = .ok t ∧ t.lexeme = [Ascii.plus] ∧
      endingBefore 3 (tokensBefore l'.answer 1) = [t] ∧
      ∀ limit, endingBefore 3 (tokensBefore l.answer limit) =
        endingBefore 3 (tokensBefore l'.answer limit) := by
  obtain ⟨l, l', hof, hof', hsame⟩ :=
    answers_lookahead (Memory.faithful plusDigit) (Memory.faithful plusQuote) (n := 3) (m := 3)
      (k := 3) (by decide) (by decide) .xpath10 (by decide) (by decide) rfl
  obtain ⟨l₀, hof₀, hl, hphase⟩ :=
    follows_ofSource (Memory.faithful plusDigit) (n := 3) (by decide) .xpath10 .xml
  obtain rfl : l = l₀ := Except.ok.inj (hof.symm.trans hof₀)
  obtain ⟨l₀, hof₀, hl', hphase'⟩ :=
    follows_ofSource (Memory.faithful plusQuote) (n := 3) (by decide) .xpath10 .xml
  obtain rfl : l' = l₀ := Except.ok.inj (hof'.symm.trans hof₀)
  have hno := hl.not_overflows_of_length_lt (by simp [hphase]) (by decide)
  have hno' := hl'.not_overflows_of_length_lt (by simp [hphase']) (by decide)
  have hequal := hsame hno hno'
  have hleads : Leads .xpath10 [] (.symbol .plus) [Ascii.plus] [0x20, 0x20, 0x31] :=
    ⟨⟨[], .nil⟩, by decide, not_startsTrivia_cons (by decide) _, rfl⟩
  have htext : plusDigit.drop ({} : Point).offset = [] ++ ([Ascii.plus] ++ [0x20, 0x20, 0x31]) :=
    rfl
  obtain ⟨t, q, hfound, heof, -, hlexeme, hspan, -⟩ := Plain.exists_look_of_leads hleads htext
  obtain ⟨l₁, hnext, -⟩ := hl.next_token (by simp [hphase])
    (Forecast.fits_of_length_lt (by decide) _) hfound
  have hanswer : l.answer 0 = .ok t := by rw [answer, hnext]
  have hfirst : endingBefore 3 (tokensBefore l.answer 1) = [t] := by
    simp [tokensBefore, endingBefore, hanswer, heof, hspan]
  exact ⟨l, l', t, hof, hof', hanswer, hlexeme, hequal 1 ▸ hfirst, hequal⟩

end Lexer

end XPathScan
