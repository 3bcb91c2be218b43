import XPathScan.Ascii

/-!
# Classes of bytes

What the scanner needs to know about a byte: whether it separates tokens, starts a name, continues
a name or is a digit. A `XPathScan.ByteClass` is any four such predicates; only the blanks have to
be given, the rest have the values of XML names at the level of bytes.

* `XPathScan.ByteClass.xml` – the classes of XML 1.0, with the blanks space, tab, CR and LF.

Bytes from `0x80` up start and continue names, so a name in any script is scanned without being
decoded. A colon is no name byte: qualified names are put together by the name scanner.
-/

namespace XPathScan

/-- **The byte classes of a scanner.** The defaults build on each other: a byte continues a name
when it starts one – by whatever predicate was given for that – or is a digit, hyphen or full
stop. -/
structure ByteClass where
  /-- Blanks, which separate tokens. -/
  isSpace : UInt8 → Bool
  /-- The first byte of a name. -/
  startsName : UInt8 → Bool := fun b => Ascii.isLetter b || b == Ascii.underscore || 0x80 ≤ b
  /-- Any later byte of a name. -/
  continuesName : UInt8 → Bool := fun b =>
    startsName b || Ascii.isDigit b || b == Ascii.minus || b == Ascii.dot
  /-- A digit of a number. -/
  isDigit : UInt8 → Bool := Ascii.isDigit

/-- **The classes of XML 1.0**: blanks are space, tab, carriage return and line feed. -/
def ByteClass.xml : ByteClass where
  isSpace b :=
    b == Ascii.space || b == Ascii.tab || b == Ascii.carriageReturn || b == Ascii.lineFeed

end XPathScan
