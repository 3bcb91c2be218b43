import XPathScan.ByteClass
import XPathScan.Scan.Basic

/-!
# Numbers

Digits are an integer, with a point before, between or after them a decimal, and with an exponent
a double. A point without a digit after it is a token of its own, or the first half of `..`.
-/

namespace XPathScan.Scan

variable {n : Nat}

/-- **Scan an exponent**, if there is one and the version has it; without one the number has the
given kind. -/
def exponent (d : Dialect) (c : ByteClass) (kind : Kind) : Scan n Kind := do
  let mark ← sees fun b => b == Ascii.lowerE || b == Ascii.upperE
  if d.supports .exponentLiterals && mark then
    advance
    if ← sees fun b => b == Ascii.plus || b == Ascii.minus then advance
    if ← sees c.isDigit then
      eatWhile c.isDigit
      pure .doubleLiteral
    else reject .missingExponentDigits
  else pure kind

/-- **Scan a number that starts with a digit.** -/
def number (d : Dialect) (c : ByteClass) : Scan n Kind := do
  eatWhile c.isDigit
  if (← peek) = some Ascii.dot then
    advance
    eatWhile c.isDigit
    exponent d c .decimalLiteral
  else exponent d c .integerLiteral

/-- **Scan a token that starts with a point.** -/
def point (d : Dialect) (c : ByteClass) : Scan n Kind := do
  advance
  if ← sees c.isDigit then
    eatWhile c.isDigit
    exponent d c .decimalLiteral
  else if (← peek) = some Ascii.dot then
    advance
    pure (.symbol .parentStep)
  else pure (.symbol .contextItem)

end XPathScan.Scan
