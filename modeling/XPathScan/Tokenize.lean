import XPathScan.Lexer
import XPathScan.Source.Memory

/-!
# Tokens of a whole input

For an input that is in memory as a whole the window can be made so large that every token fits.
No more calls are needed than the input has bytes and one for its end, since every token has a
byte of its own.
-/

namespace XPathScan

/-- A buffer size for which any token of the input and its lookahead fit into the window. -/
def ampleBufferSize (input : List UInt8) : Nat :=
  max ({} : Settings).bufferSize (input.length + 2)

/-- **The tokens of an input**, without the one that marks the end, or the first error. -/
def tokenize (input : List UInt8) (version : Version) : Except LexError (List Token) :=
  match Lexer.ofSource ({ rest := input } : Memory)
      { bufferSize := ampleBufferSize input, version } ByteClass.xml with
  | .error e => .error e
  | .ok lexer => lexer.tokens (input.length + 1)

end XPathScan
