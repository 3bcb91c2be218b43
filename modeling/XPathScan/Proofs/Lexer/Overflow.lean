import XPathScan.Proofs.Lexer.Run
import XPathScan.Proofs.Plain.Order
import XPathScan.Tokenize

/-!
# Overflows are never spurious

A window overflows only for a token that is at least as long as a buffer, or for one that is
malformed. Blanks and comments have no part in it, however long they are. So if every token of a
text is shorter than a buffer, the window does.

The margin is exact. A token may start at the last byte of one buffer, and one byte behind it may
have to be looked at; what is shorter than a buffer still ends before the end of the other one, and
leaves that byte.

* `XPathScan.Lexer.Follows.tooLong` – what an overflow says about the text;
* `XPathScan.Lexer.emits_of_tokens` – tokens in a list, up to the end;
* `XPathScan.Lexer.overflow_not_spurious` – the whole of it, for a lexer over a faithful source.
-/

namespace XPathScan

variable {version : Version} {text : List UInt8} {n m : Nat}

/-! ### What a plain lexer sees where a window is too small -/

namespace Plain

variable {p q : Point} {i : Nat}

/-- **Where a window is too small, a token starts** before the end of the text, behind blanks and
comments. -/
theorem start_of_not_fits (hn : 0 < n)
    (hfits : ¬((Plain.of text .xml version).look q).Fits n text) :
    let start := ((Plain.of text .xml version).look q).start.offset
    q.offset ≤ start ∧
      (∃ parts, Crossed .xml version (Span.slice { start := q.offset, stop := start } text) parts) ∧
      start < text.length ∧ ¬StartsTrivia version (text.drop start) := by
  rcases hextent : Trivia.extent .xml version .none (text.drop q.offset) with k | ⟨trivia, k⟩
  · -- A comment that is not closed fits into any window.
    have hlook := look_of_unclosed (s := .of text .xml version) hextent
    refine absurd (Forecast.fits_of_reach_le hn ?_ text) hfits
    rw [hlook]
    exact Nat.zero_le n
  · have hlook := look_of_extent (s := .of text .xml version) hextent
    rw [hlook] at hfits
    rw [hlook]
    simp only [Forecast.Fits, not_or, Nat.not_lt, Point.pastGap_offset] at hfits
    simp only [Point.pastGap_offset]
    refine ⟨Nat.le_add_right _ _, ?_, ?_, ?_⟩
    · have hcrossed := Trivia.exists_crossed_take_extent .xml version .none (text.drop q.offset)
      simpa [Span.slice, hextent, Trivia.reached] using hcrossed
    · have hlt : q.offset + k < ((q.offset + k) / n + 2) * n :=
        (Nat.div_lt_iff_lt_mul hn).mp (by omega)
      omega
    · simpa only [List.drop_drop] using Trivia.not_startsTrivia_drop_extent hextent

/-- **A later call starts behind the token that an earlier one sees**, unless that is the end. -/
theorem start_lt_of_reaches {r : Point} {j : Nat} (hp : p.offset ≤ text.length) (hij : i < j)
    (hq : (Plain.of text .xml version).Reaches p i q)
    (hr : (Plain.of text .xml version).Reaches p j r)
    (hlt : ((Plain.of text .xml version).look q).start.offset < text.length) :
    ((Plain.of text .xml version).look q).start.offset < r.offset := by
  -- The later call comes after the point behind the token, which takes at least one byte.
  have hsucc := hq.of_le hr (Nat.le_of_lt hij)
  rw [show j - i = j - (i + 1) + 1 by omega] at hsucc
  rcases hsucc with _ | @⟨_, q', _, t, _, hfound, hrest⟩
  have hsees := sees_of_found (hq.offset_le hp).2 hfound
  have hnext := (hrest.offset_le (by rw [hsees.offset_eq]; exact hsees.stop_le)).1
  rw [hsees.offset_eq] at hnext
  rw [hsees.start_eq] at hlt ⊢
  cases heof : t.isEof with
  | true =>
    have := (hsees.isEof_iff.1 heof).1
    omega
  | false =>
    have := hsees.isEof_iff.2 heof
    omega

/-- The token behind all others is the end. -/
theorem Emits.isEof {s : Plain} {ts : List Token} {e : Token} (h : s.Emits p ts e) :
    e.isEof = true := by
  induction h with
  | eof _ heof => exact heof
  | token _ _ _ ih => exact ih

end Plain

namespace Lexer

variable {σ τ : Type} [Source σ] [Source τ]

/-- Where the last token before a call ends, or the beginning of the text. -/
def lastStop (answers : Nat → Except LexError Token) : Nat → Nat
  | 0 => 0
  | i + 1 =>
    match answers i with
    | .ok t => t.span.stop
    | .error _ => 0

/-- **A token that is too long for buffers of a size**: what an overflow of call `i` at offset `p`
says about the text and about the answers through a large window. -/
structure TooLong (version : Version) (text : List UInt8) (n : Nat)
    (small large : Nat → Except LexError Token) (i p : Nat) : Prop where
  /-- The offset is not before the end of the last token. -/
  lastStop_le : lastStop small i ≤ p
  /-- Only blanks and comments stand between the two, below 2³² levels of comments. -/
  gap_isTrivia : Shallow (Span.slice { start := lastStop small i, stop := p } text) →
    IsTrivia version (Span.slice { start := lastStop small i, stop := p } text)
  /-- The offset is in the text. -/
  lt_length : p < text.length
  /-- It is not a blank or a comment that starts there. -/
  not_startsTrivia : ¬StartsTrivia version (text.drop p)
  /-- Through a large window, the same call gives a token that starts there and is at least as long
  as a buffer, or finds a malformation there. -/
  large_answer : (∃ t, large i = .ok t ∧ t.span.start = p ∧ n ≤ t.lexeme.length) ∨
    ∃ m position, large i = .error (.malformed m position) ∧ position.offset = p
  /-- No call gives a shorter token there. -/
  large_length : ∀ j t, large j = .ok t → t.span.start = p → n ≤ t.lexeme.length

/-- What has been given before a call ends where the call starts to look. -/
theorem Follows.lastStop_eq {l : Lexer σ n} {s : Plain} {q : Point} {i : Nat}
    (h : l.Follows s {}) (hphase : l.phase ≠ .failed) (hreach : s.Reaches {} i q)
    (hno : ∀ j < i, ¬Overflows (l.answer j)) : lastStop l.answer i = q.offset := by
  cases i with
  | zero =>
    cases hreach
    rfl
  | succ i =>
    obtain ⟨r, t, hlast, hfound⟩ := hreach.last
    have hanswer : l.answer i = .ok t := by
      rw [h.answer_eq hphase fun j hj => hno j (Nat.lt_succ_of_le hj), hlast.answer_eq, hfound]
      rfl
    have hsees := Plain.sees_of_found (hlast.offset_le (Nat.zero_le _)).2 hfound
    rw [lastStop, hanswer, hsees.offset_eq]

/-- **An overflow comes from a token that is too long.** -/
theorem Follows.tooLong {l : Lexer σ n} {l' : Lexer τ m} {i : Nat} {o : Overflow}
    (h : l.Follows (.of text .xml version) {}) (hphase : l.phase ≠ .failed)
    (h' : l'.Follows (.of text .xml version) {}) (hphase' : l'.phase ≠ .failed)
    (hlen : text.length < 2 * m) (ho : l.answer i = .error (.configuration (.overflow o))) :
    o.bufferSize = n ∧ TooLong version text n l.answer l'.answer i o.offset := by
  obtain ⟨q, hreach, hfits, rfl⟩ := h.overflow_inv hphase ho
  have hn := l.cursor.input.window.size_pos
  obtain ⟨hle, ⟨parts, hparts⟩, hlt, hstarts⟩ := Plain.start_of_not_fits hn hfits
  have hlast : lastStop l.answer i = q.offset :=
    h.lastStop_eq hphase hreach fun j hj => not_overflows_of_lt ⟨_, ho⟩ hj
  have hlarge := h'.answer_eq_of_length_lt hphase' hlen
  have hbegin : ({} : Point).offset ≤ text.length := Nat.zero_le _
  have hq := (hreach.offset_le hbegin).2
  refine ⟨rfl, hlast ▸ hle, hlast ▸ fun hshallow => (hparts.isGap hshallow).isTrivia, hlt, hstarts,
    ?_, fun j t hj hstart => ?_⟩
  · rw [hlarge, hreach.answer_eq]
    rcases hfound : ((Plain.of text .xml version).look q).found with e | ⟨t, r⟩
    · obtain ⟨m, rfl⟩ := Plain.malformed_of_found hfound
      exact Or.inr ⟨m, _, rfl, rfl⟩
    · have hsees := Plain.sees_of_found hq hfound
      exact Or.inl ⟨t, rfl, hsees.start_eq.symm, hsees.le_length_of_not_fits hn hfits⟩
  · -- Only the call itself can give a token there: those before it end too early, and those after
    -- it start too late.
    rw [hlarge] at hj
    obtain ⟨r, r', hr, hfound⟩ := Plain.reaches_of_answer hj
    have hsees := Plain.sees_of_found (hr.offset_le hbegin).2 hfound
    have hstart' := hsees.start_eq
    have hbehind := hsees.le_start
    simp only at hstart
    rcases Nat.lt_trichotomy i j with hij | rfl | hji
    · have := Plain.start_lt_of_reaches hbegin hij hreach hr hlt
      omega
    · have hsame := hreach.of_le hr (Nat.le_refl i)
      rw [Nat.sub_self] at hsame
      cases hsame
      exact hsees.le_length_of_not_fits hn hfits
    · have := Plain.start_lt_of_reaches hbegin hji hr hreach (by omega)
      omega

/-! ### Short tokens -/

/-- **Tokens shorter than a buffer, and the end, fit into any window.** -/
theorem fits_of_length_lt {p q : Point} {t : Token} (hn : 0 < n) (hp : p.offset ≤ text.length)
    (hfound : ((Plain.of text .xml version).look p).found = .ok (t, q))
    (hlt : t.isEof = false → t.lexeme.length < n) :
    ((Plain.of text .xml version).look p).Fits n text := by
  have hsees := Plain.sees_of_found hp hfound
  have hreach := hsees.reach_le
  refine Forecast.fits_of_reach_le hn ?_ text
  cases heof : t.isEof with
  | true =>
    obtain ⟨hstart, hstop⟩ := hsees.isEof_iff.1 heof
    have hnil : t.lexeme = [] := by
      rw [hsees.lexeme_eq, hstart, hstop, Nat.sub_self, List.take_zero]
    rw [hnil] at hreach
    exact Nat.le_trans hreach hn
  | false =>
    have := hlt heof
    omega

/-- **A list of tokens that is not cut off goes up to the end.** The limit cannot cut it off if it
is greater than the number of bytes that are left, since every token takes one. -/
theorem emits_of_tokens {l : Lexer σ n} {p : Point} {limit : Nat} {ts : List Token}
    (h : l.Follows (.of text .xml version) p) (hphase : l.phase = .active)
    (hlimit : text.length - p.offset < limit) (htokens : l.tokens limit = .ok ts) :
    ∃ e, l.Emits ts e := by
  induction limit generalizing l p ts with
  | zero => omega
  | succ limit ih =>
    rw [tokens, next?, if_pos hphase] at htokens
    cases hnext : l.next with
    | error e l' => simp [hnext] at htokens
    | ok t l' =>
      obtain ⟨q, hfound, -, hl', hphase'⟩ := h.next_inv (by simp [hphase]) hnext
      have hsees := Plain.sees_of_found h.stands.offset_le hfound
      rw [hnext] at htokens
      cases heof : t.isEof with
      | true =>
        obtain rfl : [] = ts := by simpa [heof] using htokens
        exact ⟨t, .eof hnext heof⟩
      | false =>
        simp only [heof, Bool.false_eq_true, if_false] at htokens hphase'
        cases hrest : l'.tokens limit with
        | error e => simp [hrest, Except.map] at htokens
        | ok us =>
          obtain rfl : t :: us = ts := by simpa [hrest, Except.map] using htokens
          have hq := hsees.offset_eq
          have hstart := hsees.le_start
          have hpos := hsees.isEof_iff.2 heof
          have hstop : t.span.stop ≤ text.length := hsees.stop_le
          obtain ⟨e, hemits⟩ := ih hl' (hphase'.trans hphase) (by omega) hrest
          exact ⟨e, .token hnext heof hemits⟩

/-- **A lexer that comes to the end lists its tokens**, if the limit does not cut them off. -/
theorem Emits.tokens_eq {l : Lexer σ n} {ts : List Token} {e : Token} (hemits : l.Emits ts e)
    (hphase : l.phase = .active) {limit : Nat} (hlimit : ts.length < limit) :
    l.tokens limit = .ok ts := by
  induction hemits generalizing limit with
  | @eof l l' e hnext heof =>
    obtain ⟨limit, rfl⟩ := Nat.exists_eq_succ_of_ne_zero (Nat.ne_zero_of_lt hlimit)
    simp [tokens, next?, hphase, hnext, heof]
  | @token l l' t e ts hnext heof _ ih =>
    obtain ⟨limit, rfl⟩ := Nat.exists_eq_succ_of_ne_zero (Nat.ne_zero_of_lt hlimit)
    have hrest := ih ((phase_next hnext heof).trans hphase) (Nat.lt_of_succ_lt_succ hlimit)
    simp [tokens, next?, hphase, hnext, heof, hrest, Except.map]

/-- **A window larger than the longest token suffices.** -/
theorem Follows.emits_of_length_lt {l : Lexer σ n} {ts : List Token} {e : Token}
    (h : l.Follows (.of text .xml version) {}) (hphase : l.phase ≠ .failed)
    (hemits : (Plain.of text .xml version).Emits {} ts e)
    (hlt : ∀ t ∈ ts, t.lexeme.length < n) : l.Emits ts e := by
  have hn := l.cursor.input.window.size_pos
  refine .of_plain hemits (fun q t r hq hfound hmem => ?_) h hphase
  refine fits_of_length_lt hn hq hfound fun heof => ?_
  rcases hmem with hmem | rfl
  · exact hlt t hmem
  · rw [hemits.isEof] at heof
    cases heof

/-- **A list of all tokens of a text is what the plain lexer gives.** -/
theorem emits_of_tokenize {ts : List Token} (h : tokenize text version = .ok ts) :
    ∃ e, (Plain.of text .xml version).Emits {} ts e := by
  have hn : 0 < ampleBufferSize text := by
    rw [ampleBufferSize]
    omega
  obtain ⟨l, hof, hl, hphase⟩ := follows_ofSource (Memory.faithful text) hn version .xml
  rw [tokenize, hof] at h
  obtain ⟨e, hemits⟩ := emits_of_tokens hl hphase (Nat.lt_succ_of_le (Nat.sub_le _ _)) h
  exact ⟨e, hemits.plain hl (by simp [hphase])⟩

/-- **A token that is given ends in the buffer in which it starts, or in the next one.** -/
theorem Follows.stop_div_le {l : Lexer σ n} {s : Plain} {p : Point} {i : Nat} {t : Token}
    (h : l.Follows s p) (hphase : l.phase ≠ .failed) (ht : l.answer i = .ok t) :
    t.span.stop / n ≤ t.span.start / n + 1 := by
  have hn := l.cursor.input.window.size_pos
  obtain ⟨q, r, hreach, hfits, hfound⟩ := h.answer_inv hphase ht
  have hsees := Plain.sees_of_found (hreach.offset_le h.stands.offset_le).2 hfound
  have hstop := hsees.stop_le
  have hnear := hsees.stop_le_reach
  have hlt : t.span.stop < (t.span.start / n + 2) * n := by
    rw [← hsees.start_eq] at hnear ⊢
    rcases hfits with hlen | hroom
    · exact Nat.lt_of_le_of_lt hstop hlen
    · exact Nat.lt_of_le_of_lt hnear hroom
  exact Nat.le_of_lt_succ ((Nat.div_lt_iff_lt_mul hn).mpr hlt)

/-- **A window larger than the longest token suffices, and an overflow is never spurious.**

Whatever the source, an overflow of a window of size `n` comes from a token that is too long for
it, as the answers through a window of size `m` show that holds the text. If all tokens of the text
are shorter than `n`, they are all given. And a token that is given never goes beyond the buffer
after the one it starts in. -/
theorem overflow_not_spurious {source : σ} {source' : τ}
    (hsource : Source.Faithful source text) (hsource' : Source.Faithful source' text)
    (hn : 0 < n) (hm : text.length < 2 * m) (version : Version) :
    ∃ (l : Lexer σ n) (l' : Lexer τ m),
      ofSource source { bufferSize := n, version } .xml = .ok l ∧
      ofSource source' { bufferSize := m, version } .xml = .ok l' ∧
      (∀ i o, l.answer i = .error (.configuration (.overflow o)) →
        o.bufferSize = n ∧ TooLong version text n l.answer l'.answer i o.offset) ∧
      (∀ ts, tokenize text version = .ok ts → (∀ t ∈ ts, t.lexeme.length < n) →
        (∃ e, l.Emits ts e) ∧ ∀ limit > ts.length, l.tokens limit = .ok ts) ∧
      ∀ i t, l.answer i = .ok t → t.span.stop / n ≤ t.span.start / n + 1 := by
  obtain ⟨l, hof, hl, hphase⟩ := follows_ofSource hsource hn version .xml
  obtain ⟨l', hof', hl', hphase'⟩ := follows_ofSource (n := m) hsource' (by omega) version .xml
  have hactive : l.phase ≠ .failed := by simp [hphase]
  have hactive' : l'.phase ≠ .failed := by simp [hphase']
  refine ⟨l, l', hof, hof', fun i o ho => hl.tooLong hactive hl' hactive' hm ho,
    fun ts hts hlt => ?_, fun i t ht => hl.stop_div_le hactive ht⟩
  obtain ⟨e, hplain⟩ := emits_of_tokenize hts
  have hemits := hl.emits_of_length_lt hactive hplain hlt
  exact ⟨⟨e, hemits⟩, fun limit hlimit => hemits.tokens_eq hphase hlimit⟩

/-- A comment, and a string literal of three bytes. -/
def literalBehindComment : List UInt8 := [0x28, 0x3A, 0x3A, 0x29, 0x27, 0x61, 0x27]

/-- The text through buffers of one byte: the comment passes, and the literal does not. -/
theorem overflow_not_spurious_literalBehindComment :
    ∃ (l : Lexer Memory 1) (l' : Lexer Memory 4),
      ofSource ({ rest := literalBehindComment } : Memory) { bufferSize := 1, version := .xpath20 }
        .xml = .ok l ∧
      ofSource ({ rest := literalBehindComment } : Memory) { bufferSize := 4, version := .xpath20 }
        .xml = .ok l' ∧
      l.answer 0 = .error (.configuration (.overflow { bufferSize := 1, offset := 4 })) ∧
      TooLong .xpath20 literalBehindComment 1 l.answer l'.answer 0 4 := by
  obtain ⟨l, l', hof, hof', htooLong, -⟩ :=
    overflow_not_spurious (Memory.faithful literalBehindComment)
      (Memory.faithful literalBehindComment) (n := 1) (m := 4) (by decide) (by decide) .xpath20
  obtain ⟨l₀, hof₀, hl, hphase⟩ :=
    follows_ofSource (Memory.faithful literalBehindComment) (n := 1) (by decide) .xpath20 .xml
  obtain rfl : l = l₀ := Except.ok.inj (hof.symm.trans hof₀)
  have hextent : Trivia.extent .xml .xpath20 .none literalBehindComment = .ok (⟨4⟩, 4) := by
    rw [literalBehindComment, Trivia.extent, if_neg (by decide), if_pos (by decide)]
    show Trivia.shift 4 (Trivia.extent .xml .xpath20 _ [0x27, 0x61, 0x27]) = _
    rw [Trivia.extent, if_neg (by decide), if_neg (by decide)]
    rfl
  have hlook := Plain.look_of_extent (s := .of literalBehindComment .xml .xpath20) (p := {}) hextent
  obtain ⟨l₁, hnext⟩ := hl.next_overflow (by simp [hphase]) (by
    rw [hlook]
    rw [Forecast.Fits]
    decide)
  have hanswer : l.answer 0 =
      .error (.configuration (.overflow { bufferSize := 1, offset := 4 })) := by
    rw [answer, hnext, hlook]
    rfl
  exact ⟨l, l', hof, hof', hanswer, (htooLong 0 _ hanswer).2⟩

end Lexer

end XPathScan
