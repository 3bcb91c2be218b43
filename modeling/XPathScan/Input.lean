import XPathScan.Source.Basic
import XPathScan.Window.Search

/-!
# Input: a window fed by a source

Input is read a buffer at a time, and only in two places: `XPathScan.Input.ofSource` fills both
slots, and `XPathScan.Input.mark`, which starts a new lexeme, refills the slot that the start has
left. So the window is always filled before a cursor can get there, and no move inside a lexeme
reads.

A read that fails leaves traces: the slot already stands for its new epoch, has whatever bytes the
read wrote, and keeps its older length; and in `XPathScan.Input.mark` the start is looked up in
the position's slot although it has not moved. Operations therefore give back the input also when
they fail.

* `XPathScan.Input.noLonger_mark` – starting a new lexeme does not add to what is still to come, so
  every loop that consumes input ends.
-/

namespace XPathScan

/-- **What can go wrong between a window and its source.** -/
inductive InputError where
  /-- The source failed. -/
  | read (failure : ReadFailure)
  /-- A buffer has to hold at least one byte. -/
  | invalidBufferSize (size : Nat)
  /-- A lexeme does not fit into the window. -/
  | overflow (overflow : Overflow)
  deriving DecidableEq, Repr

/-- The text for a buffer size that no window can have. -/
def invalidBufferSizeMessage (size : Nat) : String :=
  s!"buffer size must be positive, got {size}"

/-- The text for a lexeme that does not fit into its window. -/
def Overflow.message (o : Overflow) : String :=
  s!"token starting at offset {o.offset} does not fit in the {o.bufferSize}-byte buffer window"

/-- The text of an input error. -/
def InputError.message : InputError → String
  | .read failure => s!"failed to read source: {failure.message}"
  | .invalidBufferSize size => invalidBufferSizeMessage size
  | .overflow o => o.message

/-- **A window and the source that fills it.** -/
structure Input (σ : Type) (n : Nat) where
  /-- What has not been read yet. -/
  source : σ
  /-- What can be seen. -/
  window : Window n

namespace Input

variable {σ : Type} {n : Nat}

/-! ### Reading -/

/-- **Fill a slot with an epoch.** Once the input has ended there is nothing to read, and the slot
is empty. -/
def load [Source σ] (side : Side) (epoch : Nat) : EStateM ReadFailure (Input σ n) Unit := fun i =>
  let slot := i.window.slot side
  match i.window.stop with
  | some _ =>
    .ok () { i with window := i.window.setSlot side (Slot.receive epoch slot.data 0) }
  | none =>
    match Source.read slot.data i.source with
    | (⟨buffer, .error failure⟩, source) =>
      .error failure
        { source, window := i.window.setSlot side { slot with data := buffer, epoch } }
    | (⟨buffer, .ok count⟩, source) =>
      let window := i.window.setSlot side (Slot.receive epoch buffer count)
      .ok ()
        { source
          window := if count < n then { window with stop := some (epoch * n + count) } else window }

/-- **A window on the first two epochs of a source.** -/
def ofSource [Source σ] (source : σ) (n : Nat) : Except InputError (Input σ n) :=
  if h : 0 < n then
    match load .left 0 ({ source, window := Window.blank n h } : Input σ n) with
    | .error failure _ => .error (.read failure)
    | .ok _ input =>
      match load .right 1 input with
      | .error failure _ => .error (.read failure)
      | .ok _ input => .ok input
  else .error (.invalidBufferSize n)

/-- The input with its lexeme starting at the position. -/
def startLexeme (i : Input σ n) : Input σ n :=
  { i with window := { i.window with start := i.window.pos } }

/-- **Start a new lexeme at the position.** If that is in another epoch than the one the start's
slot stands for, the start moves to the position's slot, and the slot it leaves is filled with the
epoch after the position's. -/
def mark [Source σ] : EStateM ReadFailure (Input σ n) Unit := fun i =>
  let w := i.window
  if w.pos / n = (w.slot w.startSide).epoch then .ok () i.startLexeme
  else
    match load w.startSide (w.pos / n + 1)
        { i with window := { w with startSide := w.posSide } } with
    | .ok _ i' => .ok () i'.startLexeme
    | .error failure i' => .error failure i'

/-! ### Moving in the window -/

/-- Move the position forward; see `XPathScan.Window.advance`. -/
def advance (count : Nat) : EStateM Overflow (Input σ n) Unit := fun i =>
  match i.window.advance count with
  | .ok window => .ok () { i with window }
  | .error overflow => .error overflow i

/-- Move the position back; see `XPathScan.Window.retreat`. -/
def retreat (count : Nat) : EStateM Fault (Input σ n) Unit := fun i =>
  match i.window.retreat count with
  | .ok window => .ok () { i with window }
  | .error fault => .error fault i

/-- Move the position to the next occurrence of a byte; see `XPathScan.Window.eatUntil`. -/
def eatUntil (needle : UInt8) : EStateM SearchError (Input σ n) Bool := fun i =>
  match i.window.eatUntil needle with
  | .ok found window => .ok found { i with window }
  | .error e window => .error e { i with window }

/-! ### What is still to come

A measure for loops that consume input: as long as the end is not known, how often the source can
still fill a buffer, and then the room ahead in the window. -/

/-- A bound on the full reads still to come, counted from one, and nothing once the end of the
input is known. -/
def reserve [Source σ] (i : Input σ n) : Nat :=
  match i.window.stop with
  | none => Source.credit i.source + 1
  | some _ => 0

/-- What is still to come. -/
def pending [Source σ] (i : Input σ n) : Nat × Nat := (i.reserve, i.window.room)

/-- **Less is still to come.** -/
def Shorter [Source σ] (i' i : Input σ n) : Prop :=
  i'.reserve < i.reserve ∨ i'.reserve = i.reserve ∧ i'.window.room < i.window.room

/-- **Not more is still to come.** -/
def NoLonger [Source σ] (i' i : Input σ n) : Prop :=
  i'.reserve < i.reserve ∨ i'.reserve = i.reserve ∧ i'.window.room ≤ i.window.room

section Measure

variable [Source σ] {i i' i'' : Input σ n}

theorem Shorter.noLonger (h : Shorter i' i) : NoLonger i' i := by
  unfold Shorter at h
  unfold NoLonger
  omega

theorem NoLonger.trans (h : NoLonger i'' i') (h' : NoLonger i' i) : NoLonger i'' i := by
  unfold NoLonger at h h' ⊢
  omega

theorem NoLonger.trans_shorter (h : NoLonger i'' i') (h' : Shorter i' i) : Shorter i'' i := by
  unfold NoLonger at h
  unfold Shorter at h' ⊢
  omega

theorem Shorter.trans_noLonger (h : Shorter i'' i') (h' : NoLonger i' i) : Shorter i'' i := by
  unfold NoLonger at h'
  unfold Shorter at h ⊢
  omega

/-- The order of the measure is a lexicographic one. -/
theorem Shorter.lex (h : Shorter i' i) : Prod.Lex (· < ·) (· < ·) i'.pending i.pending := by
  rcases h with hlt | ⟨heq, hlt⟩
  · exact Prod.Lex.left _ _ hlt
  · unfold pending
    rw [heq]
    exact Prod.Lex.right _ hlt

/-- Replacing a slot changes neither the cursors nor the end of the input. -/
theorem setSlot_eq (w : Window n) (side : Side) (s : Slot n) :
    (w.setSlot side s).pos = w.pos ∧ (w.setSlot side s).stop = w.stop := by
  cases side <;> exact ⟨rfl, rfl⟩

/-- **Filling a slot does not add to what is still to come.** -/
theorem noLonger_load {side : Side} {epoch : Nat} (h : load side epoch i = .ok () i') :
    NoLonger i' i := by
  unfold load at h
  simp only at h
  cases hs : i.window.stop with
  | some stop =>
    rw [hs] at h
    cases h
    obtain ⟨hpos, hstop⟩ :=
      setSlot_eq i.window side (Slot.receive epoch (i.window.slot side).data 0)
    refine Or.inr ⟨?_, ?_⟩
    · simp only [reserve, hstop, hs]
    · simp only [Window.room, hstop, hpos, hs, Option.getD_some]
      omega
  | none =>
    rw [hs] at h
    have hread := Source.credit_read_lt (i.window.slot side).data i.source
    revert h hread
    rcases Source.read (i.window.slot side).data i.source with ⟨⟨buffer, count⟩, source⟩
    cases count with
    | error failure =>
      intro h
      cases h
    | ok count =>
      intro h hread
      cases h
      obtain ⟨-, hstop⟩ := setSlot_eq i.window side (Slot.receive epoch buffer count)
      refine Or.inl ?_
      by_cases hcount : count < n
      · simp [reserve, hs, hcount]
      · have hless : Source.credit source < Source.credit i.source :=
          hread count i.window.size_pos rfl (Nat.le_of_not_lt hcount)
        simp only [reserve, hs, hcount, hstop, ↓reduceIte]
        omega

/-- **Starting a new lexeme does not add to what is still to come.** -/
theorem noLonger_mark (h : mark i = .ok () i') : NoLonger i' i := by
  unfold mark at h
  simp only at h
  split at h
  · cases h
    exact Or.inr ⟨rfl, Nat.le_refl _⟩
  · split at h
    · next _ v hload =>
      cases h
      have hle := noLonger_load hload
      exact hle
    · cases h

end Measure

end Input

end XPathScan
