import XPathScan.Dialect
import XPathScan.Error

/-!
# Scanners

A scanner works on a window whose position is at the start of a token. It moves the position to
the end of the token and says what kind of token it was, or it finds the input malformed. It
reads no input and starts no lexeme, so it depends on nothing but what is in the window.

Every scanner is built from a few pieces:

* `XPathScan.Scan.peek` – look at the byte at the position;
* `XPathScan.Scan.advance` and `XPathScan.Scan.retreat` – move by one byte;
* `XPathScan.Scan.eatWhile` and `XPathScan.Scan.eatUntil` – move over many;
* `XPathScan.Scan.stepWhile` – move over many and take a state along;
* `XPathScan.Scan.reject` – find the input malformed.

The position of the window when a scanner gives up is part of the result, as is the window that a
token leaves behind.
-/

namespace XPathScan

/-- **Why a scanner gives up.** -/
inductive ScanError where
  /-- The token does not fit into the window. -/
  | overflow (overflow : Overflow)
  /-- The input is malformed. -/
  | malformed (malformation : Malformation)
  /-- The window was asked for a move that it cannot make. -/
  | fault (fault : Fault)
  deriving DecidableEq, Repr

/-- An error of a search is an error of the scanner that made it. -/
def ScanError.ofSearch : SearchError → ScanError
  | .overflow o => .overflow o
  | .fault f => .fault f

/-- **A scanner**: it moves in a window, and gives up or has a result. -/
abbrev Scan (n : Nat) (α : Type) := EStateM ScanError (Window n) α

namespace Scan

variable {n : Nat}

/-- The byte at the position, if the input has not ended. -/
def peek : Scan n (Option UInt8) := fun w => .ok w.peek w

/-- Move one byte forward. -/
def advance : Scan n Unit := fun w =>
  match w.advance 1 with
  | .ok w' => .ok () w'
  | .error o => .error (.overflow o) w

/-- Move one byte back. -/
def retreat : Scan n Unit := fun w =>
  match w.retreat 1 with
  | .ok w' => .ok () w'
  | .error f => .error (.fault f) w

/-- Move forward while the bytes satisfy a predicate, each of them a step of a state. -/
def stepWhile {α : Type} (p : UInt8 → Bool) (step : α → UInt8 → α) (a : α) : Scan n α := fun w =>
  match w.stepWhile p step a with
  | .ok a w' => .ok a w'
  | .error o w' => .error (.overflow o) w'

/-- Move forward while the bytes satisfy a predicate. -/
def eatWhile (p : UInt8 → Bool) : Scan n Unit := stepWhile p (fun _ _ => ()) ()

/-- Move to the next occurrence of a byte, and say whether there is one. -/
def eatUntil (needle : UInt8) : Scan n Bool := fun w =>
  match w.eatUntil needle with
  | .ok found w' => .ok found w'
  | .error e w' => .error (.ofSearch e) w'

/-- Find the input malformed. -/
def reject {α : Type} (m : Malformation) : Scan n α := throw (.malformed m)

/-- Whether the byte at the position satisfies a predicate. -/
def sees (p : UInt8 → Bool) : Scan n Bool := return (← peek).any p

end Scan

end XPathScan
