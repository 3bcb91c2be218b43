import XPathScan.Text.Quoted

/-!
# What stands before a token

Blanks and comments are not tokens. What is left of them is a set of flags on the token that
follows. A set is a byte with one binary digit for each flag; digits that stand for no flag are
kept as they are.
-/

namespace XPathScan

/-- **A set of flags.** -/
structure Flags where
  /-- One binary digit for each flag. -/
  bits : UInt8 := 0
  deriving DecidableEq, Repr

namespace Flags

/-- No flag. -/
def none : Flags := ⟨0⟩

/-- A blank other than a line break stands before the token. -/
def spaceBefore : Flags := ⟨1⟩

/-- A line break stands before the token. -/
def newlineBefore : Flags := ⟨2⟩

/-- A comment stands before the token. -/
def commentBefore : Flags := ⟨4⟩

/-- The token is the first on its line. -/
def lineStart : Flags := ⟨8⟩

/-- Nothing stands between the token and the one before it. -/
def adjacent : Flags := ⟨16⟩

/-- The flags of two sets. -/
def union (f g : Flags) : Flags := ⟨f.bits ||| g.bits⟩

instance : OrOp Flags := ⟨union⟩

/-- A set that has all flags of another. -/
def contains (f g : Flags) : Bool := f.bits &&& g.bits == g.bits

/-- Two sets that have a flag in common. -/
def meets (f g : Flags) : Bool := f.bits &&& g.bits != 0

/-- The flags with their names, in the order of their digits. -/
def named : List (Flags × String) :=
  [(spaceBefore, "SPACE_BEFORE"), (newlineBefore, "NEWLINE_BEFORE"),
    (commentBefore, "COMMENT_BEFORE"), (lineStart, "LINE_START"), (adjacent, "ADJACENT")]

/-- The digits of a set that stand for no flag. -/
def unnamed (f : Flags) : UInt8 := f.bits &&& ~~~(named.foldl (fun bits g => bits ||| g.1.bits) 0)

/-- **A set as text**: the names of its flags, and the other digits as one number. -/
def text (f : Flags) : String :=
  let names := (named.filter (f.contains ·.1)).map (·.2)
  let others := if f.unnamed = 0 then [] else ["0x" ++ Text.hex f.unnamed.toNat]
  String.intercalate " | " (names ++ others)

end Flags

end XPathScan
