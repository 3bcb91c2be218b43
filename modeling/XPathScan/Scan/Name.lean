import XPathScan.ByteClass
import XPathScan.Scan.Basic

/-!
# Names

A name is a run of name bytes. In versions with qualified names a colon goes on with the name if
the first byte of a name follows it, once; a second such colon is an error, and any other colon is
left for the next token. In versions with braced URIs a name can also be `Q`, a URI between braces
and a run of name bytes.

Reserved words are found on the way: a walk in the trie of the dialect takes every byte of a name,
the colon between its parts included, and where it has come to at the end says whether the whole name
is a reserved word. A word that only starts with one is none.
-/

namespace XPathScan

namespace Scan

variable {n : Nat}

/-- Take a colon that the first byte of a name follows, and say whether there is one. -/
def joiningColon (c : ByteClass) : Scan n Bool := do
  if (← peek) = some Ascii.colon then
    advance
    if ← sees c.startsName then pure true
    else
      retreat
      pure false
  else pure false

/-- **Scan a plain or qualified name with a walk along it**: where the walk has come to, and whether
the name is qualified. -/
def walkName (d : Dialect) (c : ByteClass) : Scan n (Option Nat × Bool) := do
  let walk ← stepWhile c.continuesName d.words.step (some Trie.root)
  if d.supports .qualifiedNames then
    if ← joiningColon c then
      -- The colon is a byte of the name, and the walk goes on with it.
      let walk ← stepWhile c.continuesName d.words.step (d.words.step walk Ascii.colon)
      if ← joiningColon c then reject .multipleColonsInName
      else pure (walk, true)
    else pure (walk, false)
  else pure (walk, false)

/-- **Scan a plain or qualified name.** -/
def name (d : Dialect) (c : ByteClass) : Scan n Kind := do
  let (walk, qualified) ← walkName d c
  return d.kindAt walk qualified

/-- A byte that may stand in a braced URI. -/
def isUriByte (b : UInt8) : Bool := b != Ascii.leftBrace && b != Ascii.rightBrace

/-- **Scan a braced URI and the name after it**, from the opening brace on. -/
def bracedName (c : ByteClass) : Scan n Kind := do
  advance
  eatWhile isUriByte
  if (← peek) = some Ascii.rightBrace then
    advance
    if ← sees c.startsName then
      eatWhile c.continuesName
      pure .uriQualifiedName
    else reject .malformedUriQualifiedName
  else reject .malformedUriQualifiedName

/-- **Scan a name of any form.** -/
def anyName (d : Dialect) (c : ByteClass) : Scan n Kind := do
  if (← peek) = some Ascii.upperQ && d.supports .bracedUriLiterals then
    advance
    if (← peek) = some Ascii.leftBrace then bracedName c
    else
      retreat
      name d c
  else name d c

/-- **Scan a variable**: a dollar sign and a name, which may be a reserved word. -/
def variableToken (d : Dialect) (c : ByteClass) : Scan n Kind := do
  advance
  if ← sees c.startsName then
    let _ ← anyName d c
    pure .variableReference
  else reject .invalidVariableName

end Scan

end XPathScan
