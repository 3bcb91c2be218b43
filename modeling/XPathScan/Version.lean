import XPathScan.Text.Blank

/-!
# Versions of the language

The versions of XPath that the scanner knows, oldest first, and the lexical features that came
with each. A later version has every feature of an earlier one, because a feature is present from
one version on (`XPathScan.Feature.since`).
-/

namespace XPathScan

/-- **A version of XPath.** -/
inductive Version where
  /-- XPath 1.0. -/
  | xpath10
  /-- XPath 2.0. -/
  | xpath20
  /-- XPath 3.0. -/
  | xpath30
  /-- XPath 3.1. -/
  | xpath31
  deriving DecidableEq, Repr

namespace Version

/-- The newest version is taken where none is named. -/
instance : Inhabited Version := ⟨.xpath31⟩

/-- Every version, oldest first. -/
def all : List Version := [.xpath10, .xpath20, .xpath30, .xpath31]

/-- The place of a version in the order of publication. -/
def rank : Version → Nat
  | .xpath10 => 0
  | .xpath20 => 1
  | .xpath30 => 2
  | .xpath31 => 3

/-- Versions are ordered by publication. -/
instance : LE Version := ⟨fun v w => v.rank ≤ w.rank⟩

/-- One version is older than another if it was published before it. -/
instance : LT Version := ⟨fun v w => v.rank < w.rank⟩

instance (v w : Version) : Decidable (v ≤ w) := inferInstanceAs (Decidable (v.rank ≤ w.rank))

instance (v w : Version) : Decidable (v < w) := inferInstanceAs (Decidable (v.rank < w.rank))

/-- The number of a version, as it is written. -/
def text : Version → String
  | .xpath10 => "1.0"
  | .xpath20 => "2.0"
  | .xpath30 => "3.0"
  | .xpath31 => "3.1"

/-- The version with exactly this number. -/
def ofText? (text : String) : Option Version := all.find? (·.text == text)

end Version

/-- **A text that names no version.** -/
structure UnknownVersion where
  /-- The text, without blanks around it. -/
  text : String
  deriving DecidableEq, Repr

/-- The text of the error. -/
def UnknownVersion.message (e : UnknownVersion) : String :=
  s!"unsupported XPath version `{e.text}` (expected 1.0, 2.0, 3.0 or 3.1)"

/-- **Read a version.** Blanks around it do not matter, and of a number that ends in `.0` the
first part is enough. -/
def Version.parse (text : String) : Except UnknownVersion Version :=
  let trimmed := Text.trim text
  match Version.all.find? fun v => v.text == trimmed || v.text == trimmed ++ ".0" with
  | some version => .ok version
  | none => .error { text := trimmed }

/-- **A construct that only some versions have.** -/
inductive Feature where
  /-- Comments between `(:` and `:)`, which nest. -/
  | comments
  /-- A name after `$`. -/
  | variableReferences
  /-- Two names joined by a colon, as one token. -/
  | qualifiedNames
  /-- A doubled quote inside a string literal. -/
  | escapedQuotes
  /-- An exponent after a number. -/
  | exponentLiterals
  /-- A question mark that counts occurrences. -/
  | occurrenceIndicators
  /-- The sign `#` between a function's name and its arity. -/
  | inlineFunctions
  /-- The arrow `=>`. -/
  | arrowOperator
  /-- An exclamation mark on its own. -/
  | simpleMapOperator
  /-- A question mark before a key. -/
  | lookupOperator
  /-- Names with a URI between braces. -/
  | bracedUriLiterals
  /-- The operator `||`. -/
  | stringConcat
  deriving DecidableEq, Repr

namespace Feature

/-- Every feature, in the order in which sets of them are written. -/
def all : List Feature :=
  [.comments, .variableReferences, .qualifiedNames, .escapedQuotes, .exponentLiterals,
    .occurrenceIndicators, .inlineFunctions, .arrowOperator, .simpleMapOperator, .lookupOperator,
    .bracedUriLiterals, .stringConcat]

/-- The version that brought a feature. -/
def since : Feature → Version
  | .comments | .variableReferences | .qualifiedNames | .escapedQuotes | .exponentLiterals
  | .occurrenceIndicators => .xpath20
  | .inlineFunctions | .arrowOperator | .simpleMapOperator | .lookupOperator
  | .bracedUriLiterals => .xpath30
  | .stringConcat => .xpath31

/-- The name of a feature. -/
def label : Feature → String
  | .comments => "COMMENTS"
  | .variableReferences => "VARIABLE_REFERENCES"
  | .qualifiedNames => "QUALIFIED_NAMES"
  | .escapedQuotes => "ESCAPED_QUOTES"
  | .exponentLiterals => "EXPONENT_LITERALS"
  | .occurrenceIndicators => "OCCURRENCE_INDICATORS"
  | .inlineFunctions => "INLINE_FUNCTIONS"
  | .arrowOperator => "ARROW_OPERATOR"
  | .simpleMapOperator => "SIMPLE_MAP_OPERATOR"
  | .lookupOperator => "LOOKUP_OPERATOR"
  | .bracedUriLiterals => "BRACED_URI_LITERALS"
  | .stringConcat => "STRING_CONCAT"

end Feature

namespace Version

/-- A version has the features that it or an earlier one brought. -/
def supports (v : Version) (f : Feature) : Bool := f.since ≤ v

/-- The features of a version, in their order. -/
def features (v : Version) : List Feature := Feature.all.filter v.supports

/-- The features of a version as a number, with one binary digit for each feature, the first
feature having the lowest. -/
def featureBits (v : Version) : Nat :=
  Feature.all.foldr (fun f bits => 2 * bits + (v.supports f).toNat) 0

end Version

end XPathScan
