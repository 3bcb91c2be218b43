/-!
# Places in the input

Offsets count bytes from the start of the input. Lines and columns count from one, and columns
count bytes, not characters.
-/

namespace XPathScan

/-- **A half-open range of offsets.** -/
structure Span where
  /-- The offset of the first byte. -/
  start : Nat := 0
  /-- The offset behind the last byte. -/
  stop : Nat := 0
  deriving DecidableEq, Repr

namespace Span

/-- The number of bytes in a span. -/
def length (s : Span) : Nat := s.stop - s.start

/-- A span without bytes. -/
def isEmpty (s : Span) : Bool := s.start == s.stop

/-- A span as its two ends. -/
def text (s : Span) : String := s!"{s.start}..{s.stop}"

end Span

/-- **A point in the input.** -/
structure Position where
  /-- The number of bytes before it. -/
  offset : Nat := 0
  /-- The line it is on. -/
  line : Nat := 1
  /-- The column it is in. -/
  column : Nat := 1
  deriving DecidableEq, Repr

/-- A position as line and column. -/
def Position.text (p : Position) : String := s!"{p.line}:{p.column}"

end XPathScan
