import XPathScan.Proofs.Lexer.Run

/-!
# The size of the buffers does not change the tokens

Two lexers over the same text, with buffers of different sizes and sources of different kinds,
follow the same plain lexer. So the only way for one of them to give something else than the other
is that its window overflows. A window that holds the whole text and more never does, and can
therefore be taken as what a smaller one is measured against: a small window gives the same
answers, or the same ones up to an overflow, and then nothing.

* `XPathScan.Lexer.answer_eq_answer_of_not_overflows` – two lexers agree as long as neither
  overflows;
* `XPathScan.Lexer.answers_independent_of_bufferSize` – the same of lexers that are set up over
  faithful sources, and of a window that holds the text.
-/

namespace XPathScan.Lexer

variable {σ τ : Type} [Source σ] [Source τ] {n m : Nat} {l : Lexer σ n} {l' : Lexer τ m}
  {s : Plain} {p : Point}

/-- **Two lexers at the same point of a text agree as long as neither overflows.** -/
theorem answer_eq_answer_of_not_overflows (h : l.Follows s p) (hphase : l.phase ≠ .failed)
    (h' : l'.Follows s p) (hphase' : l'.phase ≠ .failed) {i : Nat}
    (hno : ∀ j ≤ i, ¬Overflows (l.answer j) ∧ ¬Overflows (l'.answer j)) :
    l.answer i = l'.answer i := by
  rw [h.answer_eq hphase fun j hj => (hno j hj).1, h'.answer_eq hphase' fun j hj => (hno j hj).2]

/-- **The answers do not depend on the size of the buffers**, overflows apart. If one of the
windows holds the text and more, the other gives the same answers, or the same ones up to an
overflow, and then nothing but the report of it. -/
theorem answers_independent_of_bufferSize {source : σ} {source' : τ} {text : List UInt8}
    (hsource : Source.Faithful source text) (hsource' : Source.Faithful source' text)
    (hn : 0 < n) (hm : 0 < m) (version : Version) (classes : ByteClass) :
    ∃ (l : Lexer σ n) (l' : Lexer τ m),
      ofSource source { bufferSize := n, version } classes = .ok l ∧
      ofSource source' { bufferSize := m, version } classes = .ok l' ∧
      (∀ i, (∀ j ≤ i, ¬Overflows (l.answer j) ∧ ¬Overflows (l'.answer j)) →
        l.answer i = l'.answer i) ∧
      (text.length < 2 * m → ∀ i, l.answer i = l'.answer i ∨
        ∃ j ≤ i, Overflows (l.answer j) ∧ (∀ k < j, l.answer k = l'.answer k) ∧
          ∀ k > j, l.answer k = .error .poisoned) := by
  obtain ⟨l, hof, hl, hphase⟩ := follows_ofSource hsource hn version classes
  obtain ⟨l', hof', hl', hphase'⟩ := follows_ofSource hsource' hm version classes
  have hactive : l.phase ≠ .failed := by simp [hphase]
  have hactive' : l'.phase ≠ .failed := by simp [hphase']
  refine ⟨l, l', hof, hof',
    fun i hno => answer_eq_answer_of_not_overflows hl hactive hl' hactive' hno, fun hlen i => ?_⟩
  have hample := hl'.not_overflows_of_length_lt hactive' hlen
  by_cases hno : ∀ j ≤ i, ¬Overflows (l.answer j)
  · exact Or.inl (answer_eq_answer_of_not_overflows hl hactive hl' hactive'
      fun j hj => ⟨hno j hj, hample j⟩)
  · simp only [Classical.not_forall, Classical.not_not] at hno
    obtain ⟨j, hj, hover⟩ := hno
    refine Or.inr ⟨j, hj, hover, fun k hk => ?_, fun k hk => ?_⟩
    · exact answer_eq_answer_of_not_overflows hl hactive hl' hactive'
        fun i hi => ⟨not_overflows_of_lt hover (Nat.lt_of_le_of_lt hi hk), hample i⟩
    · obtain ⟨o, ho⟩ := hover
      exact answer_of_error ho hk

/-- A comment and a name of one byte, through buffers of one byte and through a window that holds
the text. -/
theorem answers_independent_of_bufferSize_one :
    ∃ (l : Lexer Memory 1) (l' : Lexer Memory 4),
      ofSource ({ rest := [0x28, 0x3A, 0x61, 0x3A, 0x29, 0x62] } : Memory)
        { bufferSize := 1, version := .xpath20 } .xml = .ok l ∧
      ofSource ({ rest := [0x28, 0x3A, 0x61, 0x3A, 0x29, 0x62] } : Memory)
        { bufferSize := 4, version := .xpath20 } .xml = .ok l' ∧
      (∀ i, (∀ j ≤ i, ¬Overflows (l.answer j) ∧ ¬Overflows (l'.answer j)) →
        l.answer i = l'.answer i) ∧
      ∀ i, l.answer i = l'.answer i ∨
        ∃ j ≤ i, Overflows (l.answer j) ∧ (∀ k < j, l.answer k = l'.answer k) ∧
          ∀ k > j, l.answer k = .error .poisoned := by
  obtain ⟨l, l', hof, hof', hsame, hample⟩ :=
    answers_independent_of_bufferSize (Memory.faithful [0x28, 0x3A, 0x61, 0x3A, 0x29, 0x62])
      (Memory.faithful [0x28, 0x3A, 0x61, 0x3A, 0x29, 0x62]) (n := 1) (m := 4)
      (by decide) (by decide) .xpath20 .xml
  exact ⟨l, l', hof, hof', hsame, hample (by decide)⟩

end XPathScan.Lexer
