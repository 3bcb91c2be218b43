import XPathScan.ByteClass
import XPathScan.Scan.Basic

/-!
# Operators and punctuation

A symbol is one byte, or two where the second makes another symbol of it. For most first bytes
that is all there is to say, and it is said in a table (`XPathScan.operatorRule?`). Two symbols
need more:

* an exclamation mark on its own is a symbol in some versions only;
* a question mark is a lookup if a key follows at once, and else an occurrence indicator.
-/

namespace XPathScan

/-- **How a symbol goes on after its first byte**: the symbols it becomes by a second byte, and
the one it is without. -/
structure OperatorRule where
  /-- The symbol of the first byte alone. -/
  alone : Symbol
  /-- The symbols of two bytes, by the second one. -/
  pairs : List (UInt8 × Symbol) := []

/-- **The symbols by their first byte.** -/
def operatorRule? (d : Dialect) (b : UInt8) : Option OperatorRule :=
  if b = Ascii.slash then some { alone := .slash, pairs := [(Ascii.slash, .doubleSlash)] }
  else if b = Ascii.equals then
    some { alone := .equalTo
           pairs := if d.supports .arrowOperator then [(Ascii.greater, .arrow)] else [] }
  else if b = Ascii.less then
    some { alone := .lessThan
           pairs := [(Ascii.equals, .lessThanEqualTo), (Ascii.less, .nodeBefore)] }
  else if b = Ascii.greater then
    some { alone := .greaterThan
           pairs := [(Ascii.equals, .greaterThanEqualTo), (Ascii.greater, .nodeAfter)] }
  else if b = Ascii.colon then
    some { alone := .colon
           pairs := [(Ascii.colon, .axisSeparator), (Ascii.equals, .assign)] }
  else if b = Ascii.pipe then
    some { alone := .union
           pairs := if d.supports .stringConcat then [(Ascii.pipe, .concat)] else [] }
  else if b = Ascii.hash then
    if d.supports .inlineFunctions then some { alone := .hash } else none
  else if b = Ascii.plus then some { alone := .plus }
  else if b = Ascii.minus then some { alone := .minus }
  else if b = Ascii.star then some { alone := .star }
  else if b = Ascii.leftParen then some { alone := .leftParen }
  else if b = Ascii.rightParen then some { alone := .rightParen }
  else if b = Ascii.leftBracket then some { alone := .leftBracket }
  else if b = Ascii.rightBracket then some { alone := .rightBracket }
  else if b = Ascii.leftBrace then some { alone := .leftBrace }
  else if b = Ascii.rightBrace then some { alone := .rightBrace }
  else if b = Ascii.atSign then some { alone := .atSign }
  else if b = Ascii.comma then some { alone := .comma }
  else if b = Ascii.semicolon then some { alone := .semicolon }
  else none

namespace Scan

variable {n : Nat}

/-- Scan a symbol by its rule: the first byte, and a second one that makes a pair. -/
def operator (rule : OperatorRule) : Scan n Kind := do
  advance
  match (← peek).bind (rule.pairs.lookup ·) with
  | some paired =>
    advance
    pure (.symbol paired)
  | none => pure (.symbol rule.alone)

/-- Scan `!=`, or `!` in the versions that have it. -/
def bang (d : Dialect) : Scan n Kind := do
  advance
  if (← peek) = some Ascii.equals then
    advance
    pure (.symbol .notEqualTo)
  else if d.supports .simpleMapOperator then pure (.symbol .simpleMap)
  else reject (.malformedOperator Ascii.bang Ascii.equals)

/-- A byte that starts a key after a question mark. -/
def startsKey (c : ByteClass) (b : UInt8) : Bool :=
  b == Ascii.leftParen || b == Ascii.star || c.isDigit b || c.startsName b

/-- Scan `?`, in the versions that have it. -/
def question (d : Dialect) (c : ByteClass) : Scan n Kind := do
  advance
  let key ← sees (startsKey c)
  if d.supports .lookupOperator && key then pure (.symbol .lookup)
  else if d.supports .occurrenceIndicators then pure (.symbol .questionMark)
  else reject (.unexpectedByte Ascii.question)

end Scan

end XPathScan
