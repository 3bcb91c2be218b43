import XPathScan.Proofs.Lexer.ReadFailure
import XPathScan.Source.Metered
import XPathScan.Source.Script

/-!
# The life of a lexer over any supplier

What calls give before and after the first end or error is known of every lexer that is running
(`XPathScan.Lexer.Running.lifeCycle`), and a lexer is running from its beginning on. That its source
comes to an end is what lets every call come back, but the life of the lexer does not hang on it. A
supplier that need not end is read with a limit on its reads; the life of the lexer is the same for
every limit, and two limits give the same answers up to the call that comes to the lower one
(`XPathScan.Lexer.agreesUntilFailure_of_limit`). So nothing that is said here depends on what the
limit is.
-/

namespace XPathScan.Lexer

variable {σ τ : Type} [Source σ] {n : Nat}

/-- **The limit on a supplier's reads does not matter until it is reached**: with a higher one a
lexer answers alike, up to the call that comes to the read which the lower one does not allow. -/
theorem agreesUntilFailure_of_limit {supplier : Supplier τ} {state : τ} {limit more : Nat}
    (hlimit : 2 ≤ limit) {version : Version} {classes : ByteClass}
    {l l' : Lexer (Limited supplier) n}
    (hof : ofSource { state, left := limit } { bufferSize := n, version } classes = .ok l)
    (hof' : ofSource { state, left := more + limit } { bufferSize := n, version } classes =
      .ok l') :
    l.AgreesUntilFailure { state, left := limit } .interrupted limit l' := by
  obtain ⟨l₁, hof₁, hbeside⟩ := beside_ofSource (Limited.runsWith state limit more) hlimit hof'
  obtain rfl : l = l₁ := Except.ok.inj (hof.symm.trans hof₁)
  exact hbeside.agreesUntilFailure

/-- **Every lexer lives its life**, over any source at all; and over a supplier that need not end,
whatever the limit on its reads, and with the same answers up to the limit. -/
theorem lifeCycle_ofSource (settings : Settings) (classes : ByteClass) :
    (∀ (source : σ) (l₀ : Lexer σ settings.bufferSize),
      ofSource source settings classes = .ok l₀ → l₀.LifeCycle) ∧
    ∀ (supplier : Supplier τ) (state : τ) (limit : Nat)
      (l₀ : Lexer (Limited supplier) settings.bufferSize),
      ofSource { state, left := limit } settings classes = .ok l₀ →
        l₀.LifeCycle ∧
        ∀ (more : Nat) (l' : Lexer (Limited supplier) settings.bufferSize), 2 ≤ limit →
          ofSource { state, left := more + limit } settings classes = .ok l' →
          l₀.AgreesUntilFailure { state, left := limit } .interrupted limit l' := by
  constructor
  · intro source l₀ hof
    exact (running_ofSource hof).lifeCycle
  · intro supplier state limit l₀ hof
    refine ⟨(running_ofSource hof).lifeCycle, fun more l' hlimit hof' => ?_⟩
    exact agreesUntilFailure_of_limit hlimit hof hof'

/-- A plus sign and blanks by two reads of two bytes each, and then a read that fails, with a meter
on the source. -/
def plusThenFailure : Metered Script :=
  { inner := { steps := [.deliver [0x2B, 0x20] none, .deliver [0x20, 0x20] none,
      .fail .interrupted] } }

/-- The plus sign is read in the first buffer. The blank behind it is the last byte of that buffer,
and the lexeme behind the blank is the one for which the read is made that fails. -/
theorem exists_next_plusThenFailure :
    ∃ (l₀ l₁ l₂ : Lexer (Metered Script) 2) (t : Token),
      ofSource plusThenFailure { bufferSize := 2, version := .xpath31 } .xml = .ok l₀ ∧
      l₀.next = .ok t l₁ ∧ t.kind = .symbol .plus ∧ t.isEof = false ∧
      l₁.next = .error (.read .interrupted) l₂ ∧ l₂.source.reads = 3 := by
  obtain ⟨l₀, w, input, hof, hclasses, hpeek, hscan, hmark, hblank, w', input', hmove, hfails,
      hreads⟩ : ∃ (l₀ : Lexer (Metered Script) 2) (w : Window 2) (input : Input (Metered Script) 2),
      ofSource plusThenFailure { bufferSize := 2, version := .xpath31 } .xml = .ok l₀ ∧
      l₀.classes = .xml ∧ l₀.cursor.peek = some Ascii.plus ∧
      Scan.token l₀.dialect l₀.classes l₀.cursor.input.window = .ok (.symbol .plus) w ∧
      Input.mark { l₀.cursor.input with window := w } = .ok () input ∧
      input.window.peek = some Ascii.space ∧
      ∃ w' input', input.window.advance 1 = .ok w' ∧
        Input.mark { input with window := w' } = .error .interrupted input' ∧
        input'.source.reads = 3 := by
    refine ⟨_, _, _, rfl, rfl, rfl, rfl, rfl, rfl, ?_⟩
    refine ⟨_, _, rfl, rfl, ?_⟩
    rfl
  have hphase : l₀.phase ≠ .failed := by simp [(running_ofSource hof).phase_eq]
  have hskip : Trivia.skip l₀.classes l₀.dialect.version .none l₀.cursor = .ok .none l₀.cursor := by
    rw [Trivia.skip_eq, hpeek, hclasses]
    rfl
  obtain ⟨t, place, pool, hscans, hkind⟩ : ∃ t place pool,
      l₀.scan = .ok t { l₀ with cursor := { input, place }, pool } ∧ t.kind = .symbol .plus :=
    ⟨_, _, _, scan_of_token hskip hscan hmark, rfl⟩
  have heof : t.isEof = false := by simp [Token.isEof, hkind]
  -- The second call comes to the failure with the first byte it steps over.
  obtain ⟨c, hstops, hc⟩ : ∃ c : Cursor (Metered Script) 2,
      Trivia.skip l₀.classes l₀.dialect.version .none { input, place } =
        .error (.read .interrupted) c ∧ c.input = input' := by
    have hbyte := Cursor.skipByte_of_mark_error (c := { input, place }) hmove hfails
    rw [Trivia.skip_eq, show Cursor.peek { input, place } = _ from hblank, hclasses, hbyte]
    exact ⟨_, rfl, rfl⟩
  refine ⟨l₀, { l₀ with cursor := { input, place }, pool },
    { l₀ with cursor := c, pool, phase := .failed }, t, hof, ?_, hkind, heof, ?_, ?_⟩
  · rw [next, if_neg hphase, hscans]
    simp only [heof, Bool.false_eq_true, ↓reduceIte]
  · rw [next, if_neg hphase, scan_of_unclosed hstops]
  · rw [source, hc, hreads]

/-- Over this source the first call gives the plus sign and the second one the failure. It was the
third read, and there is no other, whatever calls come. Over a supplier that goes on for ever the
calls are answered alike whatever the limit is. -/
theorem lifeCycle_ofSource_plusThenFailure :
    (∃ l₀ : Lexer (Metered Script) 2,
      ofSource plusThenFailure { bufferSize := 2, version := .xpath31 } .xml = .ok l₀ ∧
      l₀.LifeCycle ∧ l₀.outcome .next = .more ∧
      (l₀.leave .next).outcome .iterate = .failed (.read .interrupted) ∧
      ∀ later, (l₀.after (.next :: .iterate :: later)).answer 0 = .error .poisoned ∧
        (l₀.after (.next :: .iterate :: later)).source.reads = 3) ∧
    ∀ limit more, ∃ l₀ l' : Lexer (Limited endless) 2,
      ofSource { state := (), left := limit + 2 } { bufferSize := 2, version := .xpath31 } .xml =
        .ok l₀ ∧
      ofSource { state := (), left := more + (limit + 2) }
        { bufferSize := 2, version := .xpath31 } .xml = .ok l' ∧
      l₀.LifeCycle ∧
      l₀.AgreesUntilFailure { state := (), left := limit + 2 } .interrupted (limit + 2) l' := by
  obtain ⟨hsource, hsupplier⟩ := lifeCycle_ofSource (σ := Metered Script) (τ := Unit)
    { bufferSize := 2, version := .xpath31 } .xml
  refine ⟨?_, fun limit more => ?_⟩
  · obtain ⟨l₀, l₁, l₂, t, hof, hfirst, -, heof, hsecond, hreads⟩ := exists_next_plusThenFailure
    have hlife := hsource _ _ hof
    have hmore : l₀.outcome .next = .more := by simp [outcome, hfirst, heof]
    have hleave : l₀.leave .next = l₁ := by
      rw [leave, hfirst]
      rfl
    have hphase : l₁.phase = .active := by
      rw [← hleave]
      exact ((running_ofSource hof).leave_more hmore).phase_eq
    have hitem : l₁.next? = (some (.error (.read .interrupted)), l₂) := by
      rw [next?, if_pos hphase, hsecond]
    have hfailed : (l₀.leave .next).outcome .iterate = .failed (.read .interrupted) := by
      rw [hleave, outcome, hitem]
    refine ⟨l₀, hof, hlife, hmore, hfailed, fun later => ?_⟩
    have hpoisoned : (l₀.after (.next :: .iterate :: later)).Poisoned
        ((l₀.leave .next).leave .iterate).position ((l₀.leave .next).leave .iterate).source :=
      hlife.failed [.next] .iterate _ ⟨hmore, trivial⟩ hfailed later
    rw [hleave, leave, hitem] at hpoisoned
    exact ⟨by rw [answer, hpoisoned.next_eq], by rw [hpoisoned.source_eq, hreads]⟩
  · obtain ⟨hlife, hagrees⟩ := hsupplier endless () (limit + 2) _ rfl
    exact ⟨_, _, rfl, rfl, hlife, hagrees more _ (Nat.le_add_left 2 limit) rfl⟩

end XPathScan.Lexer
