import XPathScan.Input
import XPathScan.Text.Quoted
import XPathScan.Token.Position

/-!
# Errors of the lexer

Three families: the source fails, the input is malformed at some position, or the window cannot
be set up or cannot hold a token. A lexer that has failed once says so ever after. The end of the
input is not an error but a token.
-/

namespace XPathScan

/-- **How the input can be malformed.** -/
inductive Malformation where
  /-- The input ends before the closing quote. -/
  | unterminatedLiteral
  /-- The input ends inside a comment. -/
  | unterminatedComment
  /-- A dollar sign without a name after it. -/
  | invalidVariableName
  /-- Three names joined by colons. -/
  | multipleColonsInName
  /-- An exponent without digits. -/
  | missingExponentDigits
  /-- A byte that is only the first half of an operator, without the other half. -/
  | malformedOperator (found expected : UInt8)
  /-- A byte that starts no token. -/
  | unexpectedByte (byte : UInt8)
  /-- A braced URI that is not closed, or not followed by a name. -/
  | malformedUriQualifiedName
  deriving DecidableEq, Repr

/-- The name of a malformation. -/
def Malformation.label : Malformation → String
  | .unterminatedLiteral => "UnterminatedLiteral"
  | .unterminatedComment => "UnterminatedComment"
  | .invalidVariableName => "InvalidVariableName"
  | .multipleColonsInName => "MultipleColonsInName"
  | .missingExponentDigits => "MissingExponentDigits"
  | .malformedOperator _ _ => "MalformedOperator"
  | .unexpectedByte _ => "UnexpectedByte"
  | .malformedUriQualifiedName => "MalformedUriQualifiedName"

/-- The text of a malformation. The bytes of an operator are shown as the characters with these
code points. -/
def Malformation.message : Malformation → String
  | .unterminatedLiteral => "unterminated string literal"
  | .unterminatedComment => "unterminated comment"
  | .invalidVariableName => "`$` must be followed by a variable name"
  | .multipleColonsInName => "name contains more than one `:`"
  | .missingExponentDigits => "exponent must contain at least one digit"
  | .malformedOperator found expected =>
    "`" ++ (Char.ofNat found.toNat).toString ++ "` must be followed by `" ++
      (Char.ofNat expected.toNat).toString ++ "`"
  | .unexpectedByte byte => "unexpected byte " ++ Text.hexByte byte
  | .malformedUriQualifiedName => "malformed `Q\x7buri\x7dlocal` name"

/-- **A window that cannot be set up, or cannot hold a token.** -/
inductive ConfigurationError where
  /-- A buffer has to hold at least one byte. -/
  | invalidBufferSize (size : Nat)
  /-- A token does not fit into the window. -/
  | overflow (overflow : Overflow)
  deriving DecidableEq, Repr

/-- The text of a configuration error. -/
def ConfigurationError.message : ConfigurationError → String
  | .invalidBufferSize size => invalidBufferSizeMessage size
  | .overflow o => o.message

/-- **Why a lexer has no token to give.** -/
inductive LexError where
  /-- The source failed. -/
  | read (failure : ReadFailure)
  /-- The input is malformed. -/
  | malformed (malformation : Malformation) (position : Position)
  /-- The window does not do. -/
  | configuration (error : ConfigurationError)
  /-- The lexer has failed before. -/
  | poisoned
  /-- The window was asked for a move that it cannot make. -/
  | fault (fault : Fault)
  deriving DecidableEq, Repr

/-- The text of a lexer's error. -/
def LexError.message : LexError → String
  | .read failure => s!"failed to read input: {failure.message}"
  | .malformed malformation position => s!"{malformation.message} at {position.text}"
  | .configuration error => error.message
  | .poisoned => "tokenizer already failed and cannot continue"
  | .fault f => f.message

/-- An error of the input is an error of the lexer. -/
def LexError.ofInput : InputError → LexError
  | .read failure => .read failure
  | .invalidBufferSize size => .configuration (.invalidBufferSize size)
  | .overflow overflow => .configuration (.overflow overflow)

end XPathScan
