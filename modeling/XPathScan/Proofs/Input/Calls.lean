import XPathScan.Proofs.Input
import XPathScan.Proofs.Window.Walk

/-!
# Calls on an input

An input can be used on after a call has failed, and its source need not be faithful to anything. So
what calls do to an input is said here for every source. The one call that has many outcomes is the
start of a lexeme, and `XPathScan.Input.Marking` lists them: the start stays in its epoch, or it goes
to the position's slot, and then the slot that it leaves is empty because the input has ended, filled
by a full or by a short read, or left as it is by a read that fails – with another epoch on it.

* `XPathScan.Input.marking_mark` – there are no other outcomes;
* `XPathScan.Window.eatUntil_keeps` – a search keeps what its moves keep, and breaks down only where
  the position's slot has no input;
* `XPathScan.Input.after` – the input after any sequence of calls.
-/

namespace XPathScan

variable {σ : Type} {n : Nat}

/-- **A slot that a read has failed to fill**: it stands for the new epoch and has whatever the read
wrote, but its length is the older one. -/
def Slot.spoiled (s : Slot n) (epoch : Nat) (buffer : Vector UInt8 n) : Slot n :=
  { s with data := buffer, epoch }

namespace Window

/-! ### Slots that change their parts -/

/-- The slot of the start. -/
abbrev near (w : Window n) : Slot n := w.slot w.startSide

/-- The slot that is not the start's. -/
abbrev far (w : Window n) : Slot n := w.slot w.startSide.other

/-- The position is looked up in one of the two slots. -/
theorem posSide_cases (w : Window n) :
    w.posSide = w.startSide ∨ w.posSide = w.startSide.other := by
  cases w.posSide <;> cases w.startSide <;> simp [Side.other]

/-- The slot of the position is one of the two. -/
theorem here_eq_near_or_far (w : Window n) : w.here = w.near ∨ w.here = w.far := by
  rcases w.posSide_cases with hside | hside
  · exact Or.inl (congrArg w.slot hside)
  · exact Or.inr (congrArg w.slot hside)

/-- **The window with its start looked up where the position is**, and with another slot in the
place that the start has left. -/
def turned (w : Window n) (slot : Slot n) : Window n :=
  ({ w with startSide := w.posSide } : Window n).setSlot w.startSide slot

/-- The window with its lexeme starting at the position. -/
def begun (w : Window n) : Window n := { w with start := w.pos }

section Turned

variable (w : Window n) (slot : Slot n)

@[simp] theorem turned_pos : (w.turned slot).pos = w.pos := by
  unfold turned
  cases w.startSide <;> rfl

@[simp] theorem turned_start : (w.turned slot).start = w.start := by
  unfold turned
  cases w.startSide <;> rfl

@[simp] theorem turned_stop : (w.turned slot).stop = w.stop := by
  unfold turned
  cases w.startSide <;> rfl

@[simp] theorem turned_posSide : (w.turned slot).posSide = w.posSide := by
  unfold turned
  cases w.startSide <;> rfl

@[simp] theorem turned_startSide : (w.turned slot).startSide = w.posSide := by
  unfold turned
  cases w.startSide <;> rfl

/-- If the position was in the other slot, the start is there now, and the new slot is the other
one. -/
theorem slots_turned_of_far (h : w.posSide = w.startSide.other) :
    (w.turned slot).near = w.far ∧ (w.turned slot).far = slot := by
  unfold near far
  rw [turned_startSide, h]
  unfold turned
  cases w.startSide <;> exact ⟨rfl, rfl⟩

/-- If the position was in the start's slot, that is the new slot now. -/
theorem slots_turned_of_near (h : w.posSide = w.startSide) :
    (w.turned slot).near = slot ∧ (w.turned slot).far = w.far := by
  unfold near far
  rw [turned_startSide, h]
  unfold turned
  cases w.startSide <;> exact ⟨rfl, rfl⟩

end Turned

/-! ### Moves -/

/-- **One move in a window**: forward into the slot of the new epoch, back within the lexeme, or
inside the position's slot to a byte that was searched for. -/
inductive Moves (w : Window n) : Window n → Prop
  /-- A move forward. -/
  | advance {w' : Window n} {count : Nat} : w.advance count = .ok w' → Moves w w'
  /-- A move back. -/
  | retreat {w' : Window n} {count : Nat} : w.retreat count = .ok w' → Moves w w'
  /-- A move to a byte of the slot's input, before the end of the input. -/
  | find {i : Nat} : w.isAtEnd = false → w.pos % n ≤ i → i < w.here.fill →
      Moves w { w with pos := w.pos + (i - w.pos % n) }

/-- The position is in the slot of its epoch exactly if it is not astray. -/
theorem isAstray_eq_false {w : Window n} : w.isAstray = false ↔ w.pos / n = w.here.epoch := by
  simp [isAstray]

section Inversion

variable {w w' : Window n} (h : w.Moves w')

include h

/-- **Moves leave everything but the position as it was.** -/
theorem Moves.frame : (∀ side, w'.slot side = w.slot side) ∧ w'.start = w.start ∧
    w'.startSide = w.startSide ∧ w'.stop = w.stop := by
  cases h with
  | advance hmove =>
    obtain ⟨-, -, hleft, hright, hstart, hside, hstop⟩ := seek_eq_ok hmove
    refine ⟨?_, hstart, hside, hstop⟩
    rintro (_ | _)
    · exact hleft
    · exact hright
  | retreat hmove =>
    rw [Window.retreat] at hmove
    split at hmove
    · cases hmove
    · cases hmove
      exact ⟨fun _ => rfl, rfl, rfl, rfl⟩
  | find => exact ⟨fun _ => rfl, rfl, rfl, rfl⟩

theorem Moves.near_eq : w'.near = w.near := by
  obtain ⟨hslot, -, hside, -⟩ := h.frame
  rw [near, hslot, hside]

theorem Moves.far_eq : w'.far = w.far := by
  obtain ⟨hslot, -, hside, -⟩ := h.frame
  rw [far, hslot, hside]

/-- **Where a move leads to**: forward into the slot of the epoch there, which is the position's slot
if that will do; back in the position's slot, or else in the start's; or to a byte of the slot. -/
theorem Moves.place (hstart : w.start ≤ w.pos) :
    (∃ count, w'.pos = w.forward count ∧ w'.isAstray = false ∧
      (w'.posSide = w.posSide ∨ w'.pos / n ≠ w.here.epoch)) ∨
    (w.start ≤ w'.pos ∧ w'.pos ≤ w.pos ∧
      (w'.posSide = w.posSide ∧ w'.pos / n = w.here.epoch ∨
        w'.posSide = w.startSide ∧ w'.pos / n ≠ w.here.epoch)) ∨
    (w'.posSide = w.posSide ∧ w.pos ≤ w'.pos ∧ w'.pos / n = w.pos / n ∧
      w'.pos % n < w.here.fill) := by
  cases h with
  | @advance _ count hmove =>
    refine Or.inl ⟨count, (seek_eq_ok hmove).1, isAstray_eq_false.mpr (epoch_here_seek hmove), ?_⟩
    rw [Window.advance, seek] at hmove
    split at hmove
    · cases hmove
      exact Or.inl rfl
    · next hother =>
      split at hmove
      · cases hmove
        exact Or.inr hother
      · cases hmove
  | @retreat _ count hmove =>
    rw [Window.retreat] at hmove
    split at hmove
    · cases hmove
    · next hcount =>
      cases hmove
      refine Or.inr (Or.inl ⟨?_, Nat.sub_le _ _, ?_⟩)
      · show w.start ≤ w.pos - count
        omega
      · by_cases hsame : (w.pos - count) / n = w.here.epoch
        · exact Or.inl ⟨if_pos hsame, hsame⟩
        · exact Or.inr ⟨if_neg hsame, hsame⟩
  | @find i hend hle hlt =>
    have hfill := w.here.fill_le
    have hdiv := Nat.div_add_mod' w.pos n
    have hpos : w.pos + (i - w.pos % n) = i + w.pos / n * n := by omega
    refine Or.inr (Or.inr ⟨rfl, Nat.le_add_right _ _, ?_, ?_⟩)
    · show (w.pos + (i - w.pos % n)) / n = w.pos / n
      rw [hpos, Nat.add_mul_div_right _ _ w.size_pos, Nat.div_eq_of_lt (by omega), Nat.zero_add]
    · show (w.pos + (i - w.pos % n)) % n < w.here.fill
      rw [hpos, Nat.add_mul_mod_self_right, Nat.mod_eq_of_lt (by omega)]
      exact hlt

end Inversion

/-- **A search keeps what moves keep.** It breaks down only before the end of the input, where the
position's slot has no input. -/
theorem eatUntil_keeps {P : Window n → Prop} (hmoves : ∀ w w' : Window n, P w → Moves w w' → P w')
    (needle : UInt8) {w : Window n} (h : P w) :
    P (Input.leaves (w.eatUntil needle)) ∧
      ∀ f w', w.eatUntil needle = .error (.fault f) w' →
        P w' ∧ w'.isAtEnd = false ∧ w'.here.fill ≤ w'.pos % n := by
  fun_induction eatUntil needle w with
  | case1 w hend => exact ⟨h, fun f w' hf => by cases hf⟩
  | case2 w hend hfill =>
    refine ⟨h, fun f w' hf => ?_⟩
    cases hf
    exact ⟨h, by simpa using hend, Nat.le_of_lt hfill⟩
  | case3 w hend hfill i hfind =>
    obtain ⟨-, hle, hlt, -⟩ := Slot.find?_eq_some hfind
    exact ⟨hmoves _ _ h (.find (by simpa using hend) hle hlt), fun f w' hf => by cases hf⟩
  | case4 w hend hfill hfind hmoves' =>
    refine ⟨h, fun f w' hf => ?_⟩
    cases hf
    exact ⟨h, by simpa using hend, Nat.le_of_eq hmoves'.1⟩
  | case5 w hend hfill hfind hmoves' overflow hnext => exact ⟨h, fun f w' hf => by cases hf⟩
  | case6 w hend hfill hfind hmoves' w₁ hnext hless ih => exact ih (hmoves _ _ h (.advance hnext))

end Window

namespace Input

variable [Source σ]

/-! ### Setting up -/

/-- **An input that has been set up has had its two slots filled.** -/
theorem loads_of_ofSource {source : σ} {i : Input σ n} (h : ofSource source n = .ok i) :
    ∃ hn i₁, load .left 0 ({ source, window := Window.blank n hn } : Input σ n) = .ok () i₁ ∧
      load .right 1 i₁ = .ok () i := by
  rw [ofSource] at h
  split at h
  · next hn =>
    split at h
    · cases h
    · next i₁ hfirst =>
      split at h
      · cases h
      · next i₂ hsecond =>
        cases h
        exact ⟨hn, i₁, hfirst, hsecond⟩
  · cases h

/-! ### Starting a lexeme -/

/-- **What can become of the start of a lexeme.** -/
inductive Marking (i : Input σ n) : EStateM.Result ReadFailure (Input σ n) Unit → Prop
  /-- The position is in the epoch that the start's slot stands for. -/
  | stays : i.window.pos / n = i.window.near.epoch →
      Marking i (.ok () { i with window := i.window.begun })
  /-- The input has ended, and nothing is read. -/
  | ended {stop : Nat} : i.window.pos / n ≠ i.window.near.epoch →
      i.window.stop = some stop →
      Marking i (.ok () { i with window := (i.window.turned (.receive (i.window.pos / n + 1)
        i.window.near.data 0)).begun })
  /-- A full buffer is read. -/
  | filled {buffer : Vector UInt8 n} {count : Nat} {source : σ} :
      i.window.pos / n ≠ i.window.near.epoch → i.window.stop = none →
      Source.read i.window.near.data i.source =
        (⟨buffer, .ok count⟩, source) → n ≤ count →
      Marking i (.ok () { source, window := (i.window.turned
        (.receive (i.window.pos / n + 1) buffer count)).begun })
  /-- The read is short, and the end of the input is known. -/
  | short {buffer : Vector UInt8 n} {count : Nat} {source : σ} :
      i.window.pos / n ≠ i.window.near.epoch → i.window.stop = none →
      Source.read i.window.near.data i.source =
        (⟨buffer, .ok count⟩, source) → count < n →
      Marking i (.ok () { source, window := { (i.window.turned
        (.receive (i.window.pos / n + 1) buffer count)).begun with
          stop := some ((i.window.pos / n + 1) * n + count) } })
  /-- The read fails. The start has not moved, but its slot has changed. -/
  | fails {buffer : Vector UInt8 n} {failure : ReadFailure} {source : σ} :
      i.window.pos / n ≠ i.window.near.epoch → i.window.stop = none →
      Source.read i.window.near.data i.source =
        (⟨buffer, .error failure⟩, source) →
      Marking i (.error failure { source, window := (i.window.turned
        (i.window.near.spoiled (i.window.pos / n + 1) buffer)) })

/-- **Every start of a lexeme is one of these.** -/
theorem marking_mark (i : Input σ n) : Marking i (mark i) := by
  unfold mark
  simp only
  by_cases hsame : i.window.pos / n = i.window.near.epoch
  · rw [if_pos hsame]
    exact .stays hsame
  · rw [if_neg hsame]
    obtain ⟨source, ⟨left, right, start, pos, startSide, posSide, stop, hn⟩⟩ := i
    cases startSide <;> cases stop with
    | some stop => exact .ended hsame rfl
    | none =>
      simp only [load, Window.slot]
      rcases hread : Source.read (Slot.data _) source with ⟨⟨buffer, count⟩, source'⟩
      cases count with
      | error failure => exact .fails hsame rfl hread
      | ok count =>
        by_cases hcount : count < n
        · simp only [hcount, ↓reduceIte]
          exact .short hsame rfl hread hcount
        · simp only [hcount, ↓reduceIte]
          exact .filled hsame rfl hread (Nat.le_of_not_lt hcount)

/-- A lexeme that has been started is empty, and the position has not moved. -/
theorem window_mark {i i' : Input σ n} (h : mark i = .ok () i') :
    i'.window.pos = i.window.pos ∧ i'.window.start = i.window.pos := by
  have hmark := marking_mark i
  rw [h] at hmark
  cases hmark with
  | stays _ => exact ⟨rfl, rfl⟩
  | ended _ _ => exact ⟨Window.turned_pos _ _, Window.turned_pos _ _⟩
  | filled _ _ _ _ => exact ⟨Window.turned_pos _ _, Window.turned_pos _ _⟩
  | short _ _ _ _ => exact ⟨Window.turned_pos _ _, Window.turned_pos _ _⟩

/-- **Once the input has ended, the start of a lexeme cannot fail**, and does not read. -/
theorem mark_of_stop {i : Input σ n} {stop : Nat} (hstop : i.window.stop = some stop) :
    ∃ i', mark i = .ok () i' ∧ i'.source = i.source ∧ i'.window.stop = some stop := by
  have hmark := marking_mark i
  generalize mark i = result at hmark
  cases hmark with
  | stays _ => exact ⟨_, rfl, rfl, hstop⟩
  | ended _ _ => exact ⟨_, rfl, rfl, (Window.turned_stop _ _).trans hstop⟩
  | filled _ hnone _ _ => simp [hstop] at hnone
  | short _ hnone _ _ => simp [hstop] at hnone
  | fails _ hnone _ => simp [hstop] at hnone

/-! ### Any sequence of calls -/

/-- **A call on an input.** The byte at the position and the bytes of the lexeme can be looked at
between any two calls. -/
inductive Call where
  /-- Move the position forward. -/
  | advance (count : Nat)
  /-- Move the position back. -/
  | retreat (count : Nat)
  /-- Start a lexeme. -/
  | mark
  /-- Move the position to the next occurrence of a byte. -/
  | eatUntil (needle : UInt8)
  deriving DecidableEq

/-- The input that a call leaves behind, whether it succeeds or fails. -/
def leave (i : Input σ n) : Call → Input σ n
  | .advance count => leaves (advance count i)
  | .retreat count => leaves (retreat count i)
  | .mark => leaves (mark i)
  | .eatUntil needle => leaves (eatUntil needle i)

/-- **The input after some calls.** -/
def after (i : Input σ n) (calls : List Call) : Input σ n := calls.foldl leave i

/-- **Calls among which every start of a lexeme is made where a property holds.** -/
def MarksWhere (P : Input σ n → Prop) (i : Input σ n) : List Call → Prop
  | [] => True
  | c :: calls => (c = .mark → P i) ∧ (i.leave c).MarksWhere P calls

/-- The start of a lexeme succeeds. -/
def Marks (i : Input σ n) : Prop := ∃ i', mark i = .ok () i'

variable {P Q R : Input σ n → Prop} {i : Input σ n}

/-- **What each call keeps, all calls keep.** -/
theorem keeps_after (hstep : ∀ i c, Q i → Q (i.leave c)) (calls : List Call) (h : Q i) :
    Q (i.after calls) := by
  induction calls generalizing i with
  | nil => exact h
  | cons c calls ih => exact ih (hstep i c h)

/-- **What each call keeps, all calls keep**, if lexemes are started where they may be. -/
theorem MarksWhere.keeps (hstep : ∀ i c, Q i → (c = .mark → P i) → Q (i.leave c)) {calls : List Call}
    (hcalls : i.MarksWhere P calls) (h : Q i) : Q (i.after calls) := by
  induction calls generalizing i with
  | nil => exact h
  | cons c calls ih => exact ih hcalls.2 (hstep i c h hcalls.1)

/-- A property that holds all along holds at the starts of lexemes. -/
theorem MarksWhere.of_keeps (hstep : ∀ i c, Q i → (c = .mark → P i) → Q (i.leave c))
    (hQ : ∀ i, Q i → R i) {calls : List Call} (hcalls : i.MarksWhere P calls) (h : Q i) :
    i.MarksWhere R calls := by
  induction calls generalizing i with
  | nil => trivial
  | cons c calls ih => exact ⟨fun _ => hQ i h, ih hcalls.2 (hstep i c h hcalls.1)⟩

/-- **A call that starts no lexeme moves in the window**, and does not read. -/
theorem leave_keeps {P : Window n → Prop} (hmoves : ∀ w w' : Window n, P w → w.Moves w' → P w')
    {c : Call} (hc : c ≠ .mark) (h : P i.window) :
    P (i.leave c).window ∧ (i.leave c).source = i.source := by
  cases c with
  | advance count =>
    rw [leave, advance]
    split
    · next w' hmove => exact ⟨hmoves _ _ h (.advance hmove), rfl⟩
    · exact ⟨h, rfl⟩
  | retreat count =>
    rw [leave, retreat]
    split
    · next w' hmove => exact ⟨hmoves _ _ h (.retreat hmove), rfl⟩
    · exact ⟨h, rfl⟩
  | mark => exact absurd rfl hc
  | eatUntil needle =>
    have hkeeps := (Window.eatUntil_keeps hmoves needle h).1
    rw [leave, eatUntil]
    split
    · next found w' hsearch =>
      rw [hsearch] at hkeeps
      exact ⟨hkeeps, rfl⟩
    · next e w' hsearch =>
      rw [hsearch] at hkeeps
      exact ⟨hkeeps, rfl⟩

end Input

end XPathScan
