/-!
# Slots

The input is cut into *epochs* of `n` bytes: epoch `e` holds the offsets from `e * n` up to, not
including, `(e + 1) * n`. A slot is a buffer of `n` bytes together with the epoch it stands for
and the number of its bytes that are input. A slot that has been handed a new epoch without new
bytes keeps the old ones; nothing here says that the bytes belong to the epoch.
-/

namespace XPathScan

/-- The byte that stands behind the last byte of the input. -/
def sentinel : UInt8 := 0

/-- **A buffer of `n` bytes and the epoch it stands for.** -/
structure Slot (n : Nat) where
  /-- The bytes of the buffer. -/
  data : Vector UInt8 n
  /-- The epoch the slot stands for. -/
  epoch : Nat
  /-- How many bytes of the buffer are input. -/
  fill : Nat
  /-- No more bytes are input than there are. -/
  fill_le : fill ≤ n

namespace Slot

variable {n : Nat}

/-- A slot without input. -/
def blank (n epoch : Nat) : Slot n where
  data := Vector.replicate n sentinel
  epoch := epoch
  fill := 0
  fill_le := Nat.zero_le n

/-- The bytes of the buffer from index `i` up to, not including, index `j`. -/
def bytes (s : Slot n) (i j : Nat) : List UInt8 := (s.data.toArray.extract i j).toList

/-- The index, from `i` on, at which the byte `needle` first stands among the input of the slot. -/
def find? (s : Slot n) (needle : UInt8) (i : Nat) : Option Nat :=
  if h : i < s.fill then
    have : i < n := Nat.lt_of_lt_of_le h s.fill_le
    if s.data[i] = needle then some i else s.find? needle (i + 1)
  else none
termination_by s.fill - i

/-- **A slot filled by a read** that claims `count` bytes. A count of `n` or more is a full
buffer; a smaller one is followed by the sentinel. -/
def receive (epoch : Nat) (buffer : Vector UInt8 n) (count : Nat) : Slot n :=
  if h : count < n then
    { data := buffer.set count sentinel h, epoch, fill := count, fill_le := Nat.le_of_lt h }
  else
    { data := buffer, epoch, fill := n, fill_le := Nat.le_refl n }

end Slot

end XPathScan
