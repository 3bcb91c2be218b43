import XPathScan.Scan.Literal
import XPathScan.Scan.Name
import XPathScan.Scan.Number
import XPathScan.Scan.Operator

/-!
# Tokens by their first byte

The first byte of a token says which scanner takes it. Quotes, points and symbols come first; what
is none of these may be a digit or start a name, as the byte classes have it.
-/

namespace XPathScan.Scan

variable {n : Nat}

/-- **Scan the token that starts with the given byte.** -/
def tokenAt (d : Dialect) (c : ByteClass) (b : UInt8) : Scan n Kind :=
  if b = Ascii.quote ∨ b = Ascii.apostrophe then literal d b
  else if b = Ascii.dot then point d c
  else if b = Ascii.dollar ∧ d.supports .variableReferences then variableToken d c
  else if b = Ascii.bang then bang d
  else if b = Ascii.question then question d c
  else
    match operatorRule? d b with
    | some rule => operator rule
    | none =>
      if c.isDigit b then number d c
      else if c.startsName b then anyName d c
      else reject (.unexpectedByte b)

/-- **Scan the token at the position**, which at the end of the input is the end itself. -/
def token (d : Dialect) (c : ByteClass) : Scan n Kind := do
  match ← peek with
  | none => pure .eof
  | some b => tokenAt d c b

end XPathScan.Scan
