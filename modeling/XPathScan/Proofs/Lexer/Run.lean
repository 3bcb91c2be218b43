import XPathScan.Proofs.Lexer.Follows

/-!
# Runs of a lexer

A lexer is called again and again. What the calls give is a sequence of answers
(`XPathScan.Lexer.answer`), which goes on after the end of the text and after an error. Over a
faithful source each of them is what the plain lexer gives, an overflow, or the report of an
earlier error (`XPathScan.Lexer.Follows.answer_cases`).

* `XPathScan.Lexer.Follows.answer_eq` – up to an overflow the answers are those of the plain lexer;
* `XPathScan.Lexer.Follows.answer_eq_of_length_lt` – a window that holds the text never overflows;
* `XPathScan.Lexer.Emits` – the tokens up to the end, if all goes well, are those of the plain
  lexer.
-/

namespace XPathScan.Lexer

variable {σ : Type} {n : Nat} [Source σ]

/-! ### Answers -/

/-- **What the calls of a lexer give**, whether they succeed or fail. -/
def answer (l : Lexer σ n) : Nat → Except LexError Token
  | 0 =>
    match l.next with
    | .ok t _ => .ok t
    | .error e _ => .error e
  | i + 1 => (Input.leaves l.next).answer i

/-- **An answer that the window was too small for.** -/
def Overflows (a : Except LexError Token) : Prop :=
  ∃ o, a = .error (.configuration (.overflow o))

variable {l : Lexer σ n} {s : Plain} {p : Point}

/-- After an error there is nothing but the report of it. -/
theorem answer_of_failed (h : l.phase = .failed) (i : Nat) : l.answer i = .error .poisoned := by
  induction i with
  | zero => rw [answer, next_of_failed h]
  | succ i ih =>
    rw [answer, next_of_failed h]
    exact ih

/-- A call that fails leaves a lexer that has failed. -/
theorem phase_of_next_error {l' : Lexer σ n} {e : LexError} (h : l.next = .error e l') :
    l'.phase = .failed := by
  rw [next] at h
  split at h
  · next hfailed =>
    cases h
    exact hfailed
  · split at h
    · cases h
      rfl
    · cases h

/-- **The first error is the last answer that says anything new.** -/
theorem answer_of_error {i j : Nat} {e : LexError} (h : l.answer i = .error e) (hlt : i < j) :
    l.answer j = .error .poisoned := by
  obtain ⟨j, rfl⟩ := Nat.exists_eq_succ_of_ne_zero (Nat.ne_zero_of_lt hlt)
  induction i generalizing l j with
  | zero =>
    rw [answer] at h
    split at h
    · cases h
    · next e' l' hnext =>
      rw [answer, hnext]
      exact answer_of_failed (phase_of_next_error hnext) j
  | succ i ih =>
    have hlt' : i < j := Nat.lt_of_succ_lt_succ hlt
    obtain ⟨j, rfl⟩ := Nat.exists_eq_succ_of_ne_zero (Nat.ne_zero_of_lt hlt')
    exact ih h j hlt'

/-- An overflow comes only once. -/
theorem not_overflows_of_lt {i j : Nat} (hover : Overflows (l.answer j)) (hlt : i < j) :
    ¬Overflows (l.answer i) := by
  rintro ⟨o, ho⟩
  obtain ⟨o', ho'⟩ := hover
  rw [answer_of_error ho hlt] at ho'
  cases ho'

/-- **Where an answer comes from.** Either no call has failed before, and the call gives what lies
ahead or overflows; or one has failed, here or in the plain lexer. -/
theorem Follows.answer_cases (h : l.Follows s p) (hphase : l.phase ≠ .failed) (i : Nat) :
    (∃ q, s.Reaches p i q ∧
      ((s.look q).Fits n s.text ∧ l.answer i = (s.look q).found.map (·.1) ∨
        ¬(s.look q).Fits n s.text ∧ l.answer i = .error (.configuration
          (.overflow { bufferSize := n, offset := (s.look q).start.offset })))) ∨
    l.answer i = .error .poisoned ∧
      ((∃ j < i, Overflows (l.answer j)) ∨ s.answer p i = .error .poisoned) := by
  induction i generalizing l p with
  | zero =>
    refine Or.inl ⟨p, .zero, ?_⟩
    by_cases hfits : (s.look p).Fits n s.text
    · refine Or.inl ⟨hfits, ?_⟩
      rcases hfound : (s.look p).found with e | ⟨t, q⟩
      · obtain ⟨l', hnext⟩ := h.next_error hphase hfits hfound
        rw [answer, hnext]
        rfl
      · obtain ⟨l', hnext, -⟩ := h.next_token hphase hfits hfound
        rw [answer, hnext]
        rfl
    · obtain ⟨l', hnext⟩ := h.next_overflow hphase hfits
      exact Or.inr ⟨hfits, by rw [answer, hnext]⟩
  | succ i ih =>
    by_cases hfits : (s.look p).Fits n s.text
    · rcases hfound : (s.look p).found with e | ⟨t, q⟩
      · obtain ⟨l', hnext⟩ := h.next_error hphase hfits hfound
        have herror : l.answer 0 = .error e := by rw [answer, hnext]
        refine Or.inr ⟨answer_of_error herror (Nat.succ_pos i), Or.inr ?_⟩
        rw [Plain.answer, hfound]
      · -- One call is made, and the others are those of the lexer that it leaves.
        obtain ⟨l', hnext, hfollows, hphase'⟩ := h.next_token hphase hfits hfound
        have hactive : l'.phase ≠ .failed := by
          rw [hphase']
          split
          · simp
          · exact hphase
        have hsucc : ∀ j, l.answer (j + 1) = l'.answer j := fun j => by
          rw [answer, hnext]
          rfl
        have hplain : s.answer p (i + 1) = s.answer q i := by rw [Plain.answer, hfound]
        rw [hsucc, hplain]
        rcases ih hfollows hactive with ⟨r, hreach, hcase⟩ | ⟨hpoisoned, ⟨j, hj, hover⟩ | hplain⟩
        · exact Or.inl ⟨r, .succ hfound hreach, hcase⟩
        · exact Or.inr ⟨hpoisoned, Or.inl ⟨j + 1, Nat.succ_lt_succ hj, by rwa [hsucc]⟩⟩
        · exact Or.inr ⟨hpoisoned, Or.inr hplain⟩
    · obtain ⟨l', hnext⟩ := h.next_overflow hphase hfits
      have herror : l.answer 0 = .error (.configuration
          (.overflow { bufferSize := n, offset := (s.look p).start.offset })) := by
        rw [answer, hnext]
      exact Or.inr ⟨answer_of_error herror (Nat.succ_pos i), Or.inl ⟨0, Nat.succ_pos i, _, herror⟩⟩

/-- **Up to an overflow the answers are those of the plain lexer.** -/
theorem Follows.answer_eq (h : l.Follows s p) (hphase : l.phase ≠ .failed) {i : Nat}
    (hno : ∀ j ≤ i, ¬Overflows (l.answer j)) : l.answer i = s.answer p i := by
  rcases h.answer_cases hphase i with ⟨q, hreach, ⟨-, heq⟩ | ⟨-, hover⟩⟩ |
    ⟨hpoisoned, ⟨j, hj, hover⟩ | hplain⟩
  · rw [heq, hreach.answer_eq]
  · exact absurd ⟨_, hover⟩ (hno i (Nat.le_refl i))
  · exact absurd hover (hno j (Nat.le_of_lt hj))
  · rw [hpoisoned, hplain]

/-- **An overflow comes from a window that is too small for what lies ahead.** -/
theorem Follows.overflow_inv (h : l.Follows s p) (hphase : l.phase ≠ .failed) {i : Nat}
    {o : Overflow} (ho : l.answer i = .error (.configuration (.overflow o))) :
    ∃ q, s.Reaches p i q ∧ ¬(s.look q).Fits n s.text ∧
      o = { bufferSize := n, offset := (s.look q).start.offset } := by
  rcases h.answer_cases hphase i with ⟨q, hreach, ⟨-, heq⟩ | ⟨hfits, hover⟩⟩ | ⟨hpoisoned, -⟩
  · -- The plain lexer itself never overflows.
    rw [ho] at heq
    rcases hfound : (s.look q).found with e | t
    · obtain ⟨m, rfl⟩ := Plain.malformed_of_found hfound
      simp [hfound, Except.map] at heq
    · simp [hfound, Except.map] at heq
  · rw [ho] at hover
    exact ⟨q, hreach, hfits, by simpa using hover⟩
  · rw [ho] at hpoisoned
    cases hpoisoned

/-- **A token that is given lies ahead of the point that the calls before lead to**, and the window
is large enough for it. -/
theorem Follows.answer_inv (h : l.Follows s p) (hphase : l.phase ≠ .failed) {i : Nat}
    {t : Token} (ht : l.answer i = .ok t) :
    ∃ q r, s.Reaches p i q ∧ (s.look q).Fits n s.text ∧ (s.look q).found = .ok (t, r) := by
  rcases h.answer_cases hphase i with ⟨q, hreach, ⟨hfits, heq⟩ | ⟨-, hover⟩⟩ | ⟨hpoisoned, -⟩
  · rw [ht] at heq
    rcases hfound : (s.look q).found with e | ⟨t', r⟩
    · simp [hfound, Except.map] at heq
    · obtain rfl : t = t' := by simpa [hfound, Except.map] using heq
      exact ⟨q, r, hreach, hfits, hfound⟩
  · rw [ht] at hover
    cases hover
  · rw [ht] at hpoisoned
    cases hpoisoned

/-- **A window that holds the text and more never overflows.** -/
theorem Follows.not_overflows_of_length_lt (h : l.Follows s p) (hphase : l.phase ≠ .failed)
    (hlen : s.text.length < 2 * n) (i : Nat) : ¬Overflows (l.answer i) := by
  rintro ⟨o, ho⟩
  obtain ⟨q, -, hfits, -⟩ := h.overflow_inv hphase ho
  exact hfits (Forecast.fits_of_length_lt hlen _)

/-- **The answers through a window that holds the text and more are those of the plain lexer.** -/
theorem Follows.answer_eq_of_length_lt (h : l.Follows s p) (hphase : l.phase ≠ .failed)
    (hlen : s.text.length < 2 * n) (i : Nat) : l.answer i = s.answer p i :=
  h.answer_eq hphase fun j _ => h.not_overflows_of_length_lt hphase hlen j

/-! ### Tokens up to the end -/

/-- **The tokens that a lexer gives up to the end of its input**, and the token that marks the
end. -/
inductive Emits : Lexer σ n → List Token → Token → Prop
  /-- The next token is the end. -/
  | eof {l l' : Lexer σ n} {e : Token} : l.next = .ok e l' → e.isEof = true → Emits l [] e
  /-- The next token comes before the others. -/
  | token {l l' : Lexer σ n} {t e : Token} {ts : List Token} : l.next = .ok t l' →
      t.isEof = false → Emits l' ts e → Emits l (t :: ts) e

/-- A token that is given lies ahead, and the window is large enough for it. -/
theorem Follows.next_inv (h : l.Follows s p) (hphase : l.phase ≠ .failed) {l' : Lexer σ n}
    {t : Token} (hnext : l.next = .ok t l') :
    ∃ q, (s.look p).found = .ok (t, q) ∧ (s.look p).Fits n s.text ∧ l'.Follows s q ∧
      l'.phase = if t.isEof then .exhausted else l.phase := by
  by_cases hfits : (s.look p).Fits n s.text
  · rcases hfound : (s.look p).found with e | ⟨t', q⟩
    · obtain ⟨l₁, herr⟩ := h.next_error hphase hfits hfound
      simp [hnext] at herr
    · obtain ⟨l₁, hok, hfollows, hphase'⟩ := h.next_token hphase hfits hfound
      obtain ⟨rfl, rfl⟩ : t = t' ∧ l' = l₁ := by simpa [hnext] using hok
      exact ⟨q, rfl, hfits, hfollows, hphase'⟩
  · obtain ⟨l₁, herr⟩ := h.next_overflow hphase hfits
    simp [hnext] at herr

/-- **The tokens that are given are those of the plain lexer.** -/
theorem Emits.plain {ts : List Token} {e : Token} (hemits : l.Emits ts e) (h : l.Follows s p)
    (hphase : l.phase ≠ .failed) : s.Emits p ts e := by
  induction hemits generalizing p with
  | eof hnext heof =>
    obtain ⟨q, hfound, -⟩ := h.next_inv hphase hnext
    exact .eof hfound heof
  | token hnext heof _ ih =>
    obtain ⟨q, hfound, -, hfollows, hphase'⟩ := h.next_inv hphase hnext
    rw [heof] at hphase'
    exact .token hfound heof (ih hfollows (by rw [hphase']; exact hphase))

/-- **The tokens of the plain lexer are given**, if the window is large enough for each of them. -/
theorem Emits.of_plain {ts : List Token} {e : Token} (hemits : s.Emits p ts e)
    (hfits : ∀ q t r, q.offset ≤ s.text.length → (s.look q).found = .ok (t, r) →
      t ∈ ts ∨ t = e → (s.look q).Fits n s.text)
    (h : l.Follows s p) (hphase : l.phase ≠ .failed) : l.Emits ts e := by
  induction hemits generalizing l with
  | @eof p q e hfound heof =>
    have hfit := hfits p e q h.stands.offset_le hfound (Or.inr rfl)
    obtain ⟨l', hnext, -⟩ := h.next_token hphase hfit hfound
    exact .eof hnext heof
  | @token p q t e ts hfound heof _ ih =>
    have hfit := hfits p t q h.stands.offset_le hfound (Or.inl (List.mem_cons_self ..))
    obtain ⟨l', hnext, hfollows, hphase'⟩ := h.next_token hphase hfit hfound
    rw [heof] at hphase'
    have hrest := fun q u r hq hu hmem =>
      hfits q u r hq hu (Or.imp_left (List.mem_cons_of_mem t) hmem)
    exact .token hnext heof (ih hrest hfollows (by rw [hphase']; exact hphase))

end XPathScan.Lexer
