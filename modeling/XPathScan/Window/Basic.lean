import XPathScan.Window.Slot

/-!
# The window

A lexer sees its input through a window of two slots. Two cursors move in it: the *start* of the
current lexeme and the *position* of the byte to be looked at next, so that the lexeme is
`[start, pos)`. While the window is well kept its slots stand for two neighbouring epochs, the one
of the start and the one after it, and a position can therefore move less than two buffers away
from the start.

| move | where to | fails if |
|---|---|---|
| `XPathScan.Window.advance` | forward, up to the end of the input | the byte is not in the window |
| `XPathScan.Window.retreat` | back, down to the start of the lexeme | the start would be crossed |

Nothing in this file reads input; that is `XPathScan.Input`. A window alone is therefore all that
the scanner of a token works on.

The end of the input is known once a read was short. The byte at the end is the sentinel, which
may also occur as a byte of the input: `XPathScan.Window.isAtEnd` tells them apart.
-/

namespace XPathScan

/-- **The two slots of a window.** -/
inductive Side where
  /-- The slot that is filled first. -/
  | left
  /-- The slot that is filled second. -/
  | right
  deriving DecidableEq, Repr

/-- **A lexeme and its lookahead do not fit into the window.** -/
structure Overflow where
  /-- The size of a buffer. -/
  bufferSize : Nat
  /-- Where the lexeme starts. -/
  offset : Nat
  deriving DecidableEq, Repr

/-- **Moves that a window cannot make**, and that no caller should ask for. -/
inductive Fault where
  /-- A retreat of `count` bytes from `offset` would cross the start of the lexeme. -/
  | retreatPastStart (count offset start : Nat)
  /-- A search was started at index `index` of a slot that has only `fill` bytes of input. -/
  | searchPastFill (index fill : Nat)
  /-- A search at `offset` came to the end of a slot, and there is no other to go on in. -/
  | searchStalled (offset : Nat)
  deriving DecidableEq, Repr

/-- The text of a fault. -/
def Fault.message : Fault → String
  | .retreatPastStart count offset start =>
    s!"retreat of {count} bytes from offset {offset} crosses lexeme start {start}"
  | .searchPastFill index fill => s!"slice index starts at {index} but ends at {fill}"
  | .searchStalled offset => s!"search does not move on from offset {offset}"

/-- **Two slots, and two cursors in them.** -/
structure Window (n : Nat) where
  /-- The slot that was filled first. -/
  left : Slot n
  /-- The slot that was filled second. -/
  right : Slot n
  /-- The offset of the first byte of the lexeme. -/
  start : Nat
  /-- The offset of the byte to be looked at next. -/
  pos : Nat
  /-- The slot in which the start is looked up. -/
  startSide : Side
  /-- The slot in which the position is looked up. -/
  posSide : Side
  /-- The offset at which the input ends, once it is known. -/
  stop : Option Nat
  /-- A buffer holds at least one byte. -/
  size_pos : 0 < n

namespace Window

variable {n : Nat}

/-- A window before anything is read: epochs `0` and `1` without input. -/
def blank (n : Nat) (size_pos : 0 < n) : Window n where
  left := Slot.blank n 0
  right := Slot.blank n 1
  start := 0
  pos := 0
  startSide := .left
  posSide := .left
  stop := none
  size_pos := size_pos

/-! ### Slots -/

/-- The slot on a side. -/
def slot (w : Window n) : Side → Slot n
  | .left => w.left
  | .right => w.right

/-- Replace the slot on a side. -/
def setSlot (w : Window n) (side : Side) (s : Slot n) : Window n :=
  match side with
  | .left => { w with left := s }
  | .right => { w with right := s }

/-- The slot the position is in. -/
def here (w : Window n) : Slot n := w.slot w.posSide

/-- The side on which a given epoch is found, the left one first. -/
def holding? (w : Window n) (epoch : Nat) : Option Side :=
  if w.left.epoch = epoch then some .left
  else if w.right.epoch = epoch then some .right
  else none

/-! ### Looking -/

/-- The position has reached the end of the input. -/
def isAtEnd (w : Window n) : Bool :=
  match w.stop with
  | none => false
  | some stop => stop ≤ w.pos

/-- The byte the position's slot has at the position. -/
def byteHere (w : Window n) : UInt8 :=
  have h : w.pos % n < n := Nat.mod_lt _ w.size_pos
  w.here.data[w.pos % n]

/-- **The byte at the position**, and nothing at the end of the input. -/
def peek (w : Window n) : Option UInt8 :=
  if w.isAtEnd then none else some w.byteHere

/-- The byte at the position, and the sentinel at the end of the input. -/
def current (w : Window n) : UInt8 := w.peek.getD sentinel

/-- The length of the lexeme. -/
def lexemeLength (w : Window n) : Nat := w.pos - w.start

/-- **The bytes of the lexeme.** They stand in one slot, or in the rest of the start's slot and
the first part of the position's slot. -/
def lexeme (w : Window n) : List UInt8 :=
  if w.lexemeLength = 0 then []
  else if w.start / n = w.pos / n then
    (w.slot w.startSide).bytes (w.start % n) (w.start % n + w.lexemeLength)
  else
    (w.slot w.startSide).bytes (w.start % n) n ++ w.here.bytes 0 (w.pos % n)

/-! ### Moving -/

/-- Put the position at `target`, in the slot that stands for its epoch. -/
def seek (w : Window n) (target : Nat) : Except Overflow (Window n) :=
  if target / n = w.here.epoch then .ok { w with pos := target }
  else
    match w.holding? (target / n) with
    | some side => .ok { w with pos := target, posSide := side }
    | none => .error { bufferSize := n, offset := w.start }

/-- Where `count` bytes forward is: not beyond the end of the input. -/
def forward (w : Window n) (count : Nat) : Nat :=
  match w.stop with
  | none => w.pos + count
  | some stop => min (w.pos + count) stop

/-- **Move the position `count` bytes forward**, or to the end of the input if that comes first.
If the byte there is not in the window, nothing moves. -/
def advance (w : Window n) (count : Nat) : Except Overflow (Window n) :=
  w.seek (w.forward count)

/-- **Move the position `count` bytes back**, within the lexeme. A position that leaves its slot
comes into the slot of the start. -/
def retreat (w : Window n) (count : Nat) : Except Fault (Window n) :=
  if w.pos - w.start < count then .error (.retreatPastStart count w.pos w.start)
  else
    .ok { w with
      pos := w.pos - count
      posSide := if (w.pos - count) / n = w.here.epoch then w.posSide else w.startSide }

/-! ### The room ahead

How far the position can still move. Every loop over the bytes of a window ends because a move
forward leaves less room. -/

/-- The offset behind the last byte that could be in the window. -/
def horizon (w : Window n) : Nat := (max w.left.epoch w.right.epoch + 1) * n

/-- **The number of bytes ahead of the position**: up to the end of the input, or as long as that
is not known up to the horizon. -/
def room (w : Window n) : Nat := w.stop.getD w.horizon - w.pos

/-- An epoch in the window ends at the horizon or before. -/
theorem lt_horizon_of_epoch_le {w : Window n} {offset : Nat}
    (h : offset / n ≤ w.left.epoch ∨ offset / n ≤ w.right.epoch) : offset < w.horizon := by
  have hlt : offset < (offset / n + 1) * n := by
    have hdiv := Nat.div_add_mod offset n
    have hmod := Nat.mod_lt offset w.size_pos
    rw [Nat.add_mul, Nat.one_mul, Nat.mul_comm (offset / n) n]
    omega
  refine Nat.lt_of_lt_of_le hlt (Nat.mul_le_mul_right n ?_)
  omega

/-- The slot of the position is one of the two. -/
theorem here_eq (w : Window n) : w.here = w.left ∨ w.here = w.right := by
  unfold here slot
  cases w.posSide
  · exact Or.inl rfl
  · exact Or.inr rfl

/-- **What a seek that succeeds does**: the position is the target, it lies before the horizon,
and slots, start and end of the input stay. -/
theorem seek_eq_ok {w w' : Window n} {target : Nat} (h : w.seek target = .ok w') :
    w'.pos = target ∧ target < w.horizon ∧ w'.left = w.left ∧ w'.right = w.right ∧
      w'.start = w.start ∧ w'.startSide = w.startSide ∧ w'.stop = w.stop := by
  unfold seek at h
  split at h
  · next he =>
    injection h with h
    subst h
    refine ⟨rfl, lt_horizon_of_epoch_le ?_, rfl, rfl, rfl, rfl, rfl⟩
    rcases w.here_eq with hl | hr
    · exact Or.inl (Nat.le_of_eq (he.trans (congrArg Slot.epoch hl)))
    · exact Or.inr (Nat.le_of_eq (he.trans (congrArg Slot.epoch hr)))
  · split at h
    · next side hs =>
      injection h with h
      subst h
      refine ⟨rfl, lt_horizon_of_epoch_le ?_, rfl, rfl, rfl, rfl, rfl⟩
      unfold holding? at hs
      split at hs
      · next hl => exact Or.inl (Nat.le_of_eq hl.symm)
      · split at hs
        · next hr => exact Or.inr (Nat.le_of_eq hr.symm)
        · cases hs
    · cases h

/-- The horizon depends on the slots alone. -/
theorem horizon_congr {w w' : Window n} (hl : w'.left = w.left) (hr : w'.right = w.right) :
    w'.horizon = w.horizon := by
  unfold horizon
  rw [hl, hr]

/-- **A move forward leaves less room**, unless it was asked to go nowhere or the input has
ended. -/
theorem room_advance_lt {w w' : Window n} {count : Nat} (hcount : 0 < count)
    (hend : w.isAtEnd = false) (h : w.advance count = .ok w') : w'.room < w.room := by
  obtain ⟨hpos, hlt, hl, hr, -, -, hstop⟩ := seek_eq_ok h
  unfold room
  rw [hstop, horizon_congr hl hr, hpos]
  unfold isAtEnd at hend
  unfold forward at hlt ⊢
  cases hs : w.stop with
  | none =>
    simp only [hs, Option.getD_none] at hlt ⊢
    omega
  | some stop =>
    simp only [hs, Option.getD_some] at hend ⊢
    have : ¬stop ≤ w.pos := by simpa using hend
    omega

/-- A move forward does not add room. -/
theorem room_advance_le {w w' : Window n} {count : Nat} (h : w.advance count = .ok w') :
    w'.room ≤ w.room := by
  obtain ⟨hpos, hlt, hl, hr, -, -, hstop⟩ := seek_eq_ok h
  unfold room
  rw [hstop, horizon_congr hl hr, hpos]
  unfold forward
  cases hs : w.stop with
  | none =>
    simp only [Option.getD_none]
    omega
  | some stop =>
    simp only [Option.getD_some]
    omega

/-- A byte can be looked at only before the end of the input. -/
theorem isAtEnd_of_peek {w : Window n} {b : UInt8} (h : w.peek = some b) : w.isAtEnd = false := by
  unfold peek at h
  split at h
  · cases h
  · next hend => simpa using hend

/-- There is nothing to look at exactly at the end of the input. -/
theorem peek_eq_none_iff {w : Window n} : w.peek = none ↔ w.isAtEnd = true := by
  unfold peek
  cases w.isAtEnd <;> simp

end Window

end XPathScan
