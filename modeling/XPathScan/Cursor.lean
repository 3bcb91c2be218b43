import XPathScan.Ascii
import XPathScan.Error

/-!
# Walking along the input

A cursor is an input together with the line and the column of its lexeme start. A line ends with a
line feed, and a column is a byte.

* `XPathScan.Place.past` – the place behind some bytes;
* `XPathScan.Cursor.skipByte` – step over one byte that belongs to no token.
-/

namespace XPathScan

/-- The index of the last occurrence of a byte. -/
def lastIndexOf? (b : UInt8) (bytes : List UInt8) : Option Nat :=
  (bytes.reverse.findIdx? (· == b)).map (bytes.length - 1 - ·)

/-- **A line, a column, and whether there has been a token on the line.** -/
structure Place where
  /-- The line, from one. -/
  line : Nat := 1
  /-- The column, from one. -/
  column : Nat := 1
  /-- Whether a token stands before the place on its line. -/
  lineHasToken : Bool := false
  deriving DecidableEq, Repr

namespace Place

/-- The place behind one byte. -/
def next (p : Place) (b : UInt8) : Place :=
  if b = Ascii.lineFeed then { p with line := p.line + 1, column := 1 }
  else { p with column := p.column + 1 }

/-- **The place behind some bytes.** If there are line feeds among them, the column is counted from
the last one. -/
def past (p : Place) (bytes : List UInt8) : Place :=
  match lastIndexOf? Ascii.lineFeed bytes with
  | some last =>
    { p with line := p.line + bytes.count Ascii.lineFeed, column := bytes.length - last }
  | none => { p with column := p.column + bytes.length }

/-- The place behind a byte that belongs to no token: behind a line feed the line has none yet. -/
def pastTrivia (p : Place) (b : UInt8) : Place :=
  if b = Ascii.lineFeed then { p.next b with lineHasToken := false } else p.next b

/-- The place behind a token. -/
def pastToken (p : Place) (lexeme : List UInt8) : Place :=
  { p.past lexeme with lineHasToken := true }

end Place

/-- **An input, and the place of its lexeme start.** -/
structure Cursor (σ : Type) (n : Nat) where
  /-- The input. -/
  input : Input σ n
  /-- Where the lexeme starts. -/
  place : Place := {}

namespace Cursor

variable {σ : Type} {n : Nat}

/-- The point at which the lexeme starts. -/
def position (c : Cursor σ n) : Position :=
  { offset := c.input.window.start, line := c.place.line, column := c.place.column }

/-- The byte at the position, if the input has not ended. -/
def peek (c : Cursor σ n) : Option UInt8 := c.input.window.peek

/-- **Step over one byte that belongs to no token**, and start the lexeme behind it. The place
moves before input is read, so it has moved also if that fails. -/
def skipByte [Source σ] (c : Cursor σ n) : EStateM.Result LexError (Cursor σ n) Unit :=
  match c.input.window.advance 1 with
  | .error o => .error (.configuration (.overflow o)) c
  | .ok window =>
    let place := c.place.pastTrivia c.input.window.current
    match Input.mark { c.input with window } with
    | .ok _ input => .ok () { input, place }
    | .error failure input => .error (.read failure) { input, place }

section Measure

variable [Source σ] {c c' : Cursor σ n}

/-- Stepping over a byte does not add to what is still to come. -/
theorem noLonger_skipByte (h : c.skipByte = .ok () c') : c'.input.NoLonger c.input := by
  unfold skipByte at h
  split at h
  · cases h
  · next window hmove =>
    split at h
    · next _ input hmark =>
      cases h
      refine (Input.noLonger_mark hmark).trans (Or.inr ⟨?_, Window.room_advance_le hmove⟩)
      obtain ⟨-, -, -, -, -, -, hstop⟩ := Window.seek_eq_ok hmove
      simp only [Input.reserve, hstop]
    · cases h

/-- **Stepping over a byte leaves less to come**, unless the input has ended. -/
theorem shorter_skipByte {b : UInt8} (hpeek : c.peek = some b) (h : c.skipByte = .ok () c') :
    c'.input.Shorter c.input := by
  unfold skipByte at h
  split at h
  · cases h
  · next window hmove =>
    split at h
    · next _ input hmark =>
      cases h
      refine (Input.noLonger_mark hmark).trans_shorter (Or.inr ⟨?_, ?_⟩)
      · obtain ⟨-, -, -, -, -, -, hstop⟩ := Window.seek_eq_ok hmove
        simp only [Input.reserve, hstop]
      · exact Window.room_advance_lt Nat.one_pos (Window.isAtEnd_of_peek hpeek) hmove
    · cases h

end Measure

end Cursor

end XPathScan
