import XPathScan.Text.Utf8
import XPathScan.Token.Flags
import XPathScan.Token.Kind
import XPathScan.Token.Position

/-!
# Tokens

A token has a kind, the bytes of its lexeme, where it stands, and what stands before it. The token
that marks the end of the input has an empty lexeme and an empty span.
-/

namespace XPathScan

/-- **A token.** The fields not given are those of a blank token. -/
structure Token where
  /-- The kind of the token. -/
  kind : Kind := .eof
  /-- The bytes of the token. -/
  lexeme : List UInt8 := []
  /-- The offsets of the bytes. -/
  span : Span := {}
  /-- The line of the first byte. -/
  line : Nat := 1
  /-- The column of the first byte. -/
  column : Nat := 1
  /-- What stands before the token. -/
  flags : Flags := .none
  deriving DecidableEq, Repr

namespace Token

/-- A token before it is filled in. -/
def blank : Token := {}

/-- The token that marks the end of the input. -/
def isEof (t : Token) : Bool := t.kind == .eof

/-- The point at which a token starts. -/
def position (t : Token) : Position :=
  { offset := t.span.start, line := t.line, column := t.column }

/-- The lexeme as text, as far as it is UTF-8. -/
def text (t : Token) : String := Text.Utf8.decodeLossy t.lexeme

/-- Every field of a token, put back to what it is before the token is filled in. -/
def reset (t : Token) : Token :=
  { t with kind := .eof, lexeme := [], span := {}, line := 1, column := 1, flags := .none }

/-- **A token on one line**: kind, quoted text, span, line and column. -/
def summary (t : Token) : String :=
  s!"{t.kind.label} {Text.quoted t.text} @ {t.span.text} ({t.line}:{t.column})"

end Token

end XPathScan
