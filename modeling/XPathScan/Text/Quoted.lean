/-!
# Quoted text and hexadecimal

Text between double quotes, as diagnostics show it: quotes, backslashes and control characters are
escaped, all else is written as it is.
-/

namespace XPathScan.Text

/-- A number in lower-case hexadecimal digits. -/
def hex (n : Nat) : String := String.ofList (Nat.toDigits 16 n)

/-- A byte as `0x` and two lower-case hexadecimal digits. -/
def hexByte (b : UInt8) : String :=
  if b < 0x10 then "0x0" ++ hex b.toNat else "0x" ++ hex b.toNat

/-- The control characters: the first and the second block of them, and delete. -/
def isControl (c : Char) : Bool := c.toNat < 0x20 || (0x7F ≤ c.toNat && c.toNat < 0xA0)

/-- A character as it stands in quoted text. -/
def escape (c : Char) : String :=
  if c = '\x22' then "\\\""
  else if c = '\\' then "\\\\"
  else if c = '\n' then "\\n"
  else if c = '\r' then "\\r"
  else if c = '\t' then "\\t"
  else if c.toNat = 0 then "\\0"
  else if isControl c then "\\u\x7b" ++ hex c.toNat ++ "\x7d"
  else c.toString

/-- **A text between double quotes.** -/
def quoted (s : String) : String :=
  "\"" ++ String.join (s.toList.map escape) ++ "\""

end XPathScan.Text
