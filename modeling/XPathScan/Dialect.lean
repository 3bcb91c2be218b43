import XPathScan.Lexicon.Layers

/-!
# Dialects

What the scanner has to know about a version of the language: its features, and its reserved words
in the form of a trie. The scanner is the same for all versions, and asks the dialect.
-/

namespace XPathScan

/-- **The lexical side of a version.** -/
structure Dialect where
  /-- The version. -/
  version : Version
  /-- The reserved words and their kinds. -/
  words : Trie Kind

namespace Dialect

/-- The dialect of a version. -/
def ofVersion (version : Version) : Dialect := { version, words := Lexicon.trie version }

/-- Whether the version has a feature. -/
def supports (d : Dialect) (f : Feature) : Bool := d.version.supports f

/-- The kind of a name by where a walk along it has come to: its own if it is reserved, and else by
whether it is qualified. -/
def kindAt (d : Dialect) (walk : Option Nat) (qualified : Bool) : Kind :=
  match d.words.terminal? walk with
  | some kind => kind
  | none => if qualified then .qName else .identifier

end Dialect

end XPathScan
