/-!
# Named ASCII bytes

The scanner works on raw bytes. The bytes that mean something to the grammar have names here, so
that a rule reads `b = Ascii.colon` and not `b = 0x3A`.
-/

namespace XPathScan.Ascii

/-! ### Blanks -/

/-- Horizontal tab. -/
abbrev tab : UInt8 := 0x09
/-- Line feed, the byte that ends a line. -/
abbrev lineFeed : UInt8 := 0x0A
/-- Carriage return. -/
abbrev carriageReturn : UInt8 := 0x0D
/-- Space. -/
abbrev space : UInt8 := 0x20

/-! ### Punctuation -/

/-- Exclamation mark. -/
abbrev bang : UInt8 := 0x21
/-- Double quote. -/
abbrev quote : UInt8 := 0x22
/-- Number sign. -/
abbrev hash : UInt8 := 0x23
/-- Dollar sign. -/
abbrev dollar : UInt8 := 0x24
/-- Single quote. -/
abbrev apostrophe : UInt8 := 0x27
/-- Left parenthesis. -/
abbrev leftParen : UInt8 := 0x28
/-- Right parenthesis. -/
abbrev rightParen : UInt8 := 0x29
/-- Asterisk. -/
abbrev star : UInt8 := 0x2A
/-- Plus sign. -/
abbrev plus : UInt8 := 0x2B
/-- Comma. -/
abbrev comma : UInt8 := 0x2C
/-- Hyphen-minus. -/
abbrev minus : UInt8 := 0x2D
/-- Full stop. -/
abbrev dot : UInt8 := 0x2E
/-- Solidus. -/
abbrev slash : UInt8 := 0x2F
/-- Colon. -/
abbrev colon : UInt8 := 0x3A
/-- Semicolon. -/
abbrev semicolon : UInt8 := 0x3B
/-- Less-than sign. -/
abbrev less : UInt8 := 0x3C
/-- Equals sign. -/
abbrev equals : UInt8 := 0x3D
/-- Greater-than sign. -/
abbrev greater : UInt8 := 0x3E
/-- Question mark. -/
abbrev question : UInt8 := 0x3F
/-- Commercial at. -/
abbrev atSign : UInt8 := 0x40
/-- Left square bracket. -/
abbrev leftBracket : UInt8 := 0x5B
/-- Right square bracket. -/
abbrev rightBracket : UInt8 := 0x5D
/-- Low line. -/
abbrev underscore : UInt8 := 0x5F
/-- Left curly bracket. -/
abbrev leftBrace : UInt8 := 0x7B
/-- Vertical line. -/
abbrev pipe : UInt8 := 0x7C
/-- Right curly bracket. -/
abbrev rightBrace : UInt8 := 0x7D

/-! ### Letters and digits -/

/-- The letter that opens a braced URI name. -/
abbrev upperQ : UInt8 := 0x51
/-- The exponent mark, upper case. -/
abbrev upperE : UInt8 := 0x45
/-- The exponent mark, lower case. -/
abbrev lowerE : UInt8 := 0x65

/-- An ASCII letter, of either case. -/
def isLetter (b : UInt8) : Bool :=
  (0x41 ≤ b && b ≤ 0x5A) || (0x61 ≤ b && b ≤ 0x7A)

/-- An ASCII decimal digit. -/
def isDigit (b : UInt8) : Bool :=
  0x30 ≤ b && b ≤ 0x39

end XPathScan.Ascii
