import XPathScan.Lexicon.Trie
import XPathScan.Token.Kind
import XPathScan.Version

/-!
# Reserved words

The reserved words come in layers, each brought by one version. A version recognizes the words of
its own layer and of all earlier ones (`XPathScan.Lexicon.words`). Layers only add words: no word
stands in two of them.
-/

namespace XPathScan.Lexicon

/-- **The words that a version brought**, with their kinds. -/
structure Layer where
  /-- The version that brought the words. -/
  since : Version
  /-- The words and their kinds. -/
  words : List (String × Kind)

/-- Words that all have one kind. -/
def allOf (kind : Kind) (words : List String) : List (String × Kind) := words.map (·, kind)

/-! ### XPath 1.0 -/

/-- The axes. -/
def axes : List String :=
  ["ancestor", "ancestor-or-self", "attribute", "child", "descendant", "descendant-or-self",
    "following", "following-sibling", "namespace", "parent", "preceding", "preceding-sibling",
    "self"]

/-- The core functions and the node tests. -/
def functions10 : List String :=
  ["last", "position", "count", "id", "local-name", "namespace-uri", "name",
    "string", "concat", "starts-with", "contains", "substring-before", "substring-after",
    "substring", "string-length", "normalize-space", "translate",
    "boolean", "not", "true", "false", "lang",
    "number", "sum", "floor", "ceiling", "round",
    "node", "text", "comment", "processing-instruction"]

/-- The operators that are words. -/
def keywords10 : List (String × Kind) :=
  [("and", .keyword .kwAnd), ("or", .keyword .kwOr), ("div", .keyword .kwDiv),
    ("mod", .keyword .kwMod)]

/-! ### XPath 2.0 -/

/-- The keywords of version 2.0. -/
def keywords20 : List (String × Kind) :=
  [("instance", .keyword .kwInstance), ("of", .keyword .kwOf), ("cast", .keyword .kwCast),
    ("castable", .keyword .kwCastable), ("as", .keyword .kwAs), ("treat", .keyword .kwTreat),
    ("return", .keyword .kwReturn), ("for", .keyword .kwFor), ("in", .keyword .kwIn),
    ("some", .keyword .kwSome), ("every", .keyword .kwEvery), ("if", .keyword .kwIf),
    ("then", .keyword .kwThen), ("else", .keyword .kwElse), ("to", .keyword .kwTo),
    ("satisfies", .keyword .kwSatisfies), ("union", .symbol .union),
    ("intersect", .keyword .kwIntersect), ("except", .keyword .kwExcept),
    ("idiv", .keyword .kwIdiv), ("eq", .keyword .kwEq), ("ne", .keyword .kwNe),
    ("lt", .keyword .kwLt), ("le", .keyword .kwLe), ("gt", .keyword .kwGt), ("ge", .keyword .kwGe),
    ("is", .keyword .kwIs), ("typeswitch", .keyword .kwTypeswitch), ("case", .keyword .kwCase),
    ("default", .keyword .kwDefault), ("at", .keyword .kwAt), ("where", .keyword .kwWhere),
    ("order", .keyword .kwOrder), ("by", .keyword .kwBy), ("ascending", .keyword .kwAscending),
    ("descending", .keyword .kwDescending), ("stable", .keyword .kwStable),
    ("collation", .keyword .kwCollation), ("import", .keyword .kwImport),
    ("schema", .keyword .kwSchema), ("module", .keyword .kwModule),
    ("preserve", .keyword .kwPreserve), ("strip", .keyword .kwStrip)]

/-- The functions and kind tests of version 2.0. -/
def functions20 : List String :=
  ["deep-equal", "exactly-one", "zero-or-one", "one-or-more", "copy-of", "distinct-values",
    "index-of", "insert-before", "remove", "reverse", "subsequence", "empty", "exists", "avg",
    "max", "min", "data", "doc", "collection", "root",
    "upper-case", "lower-case", "ends-with", "string-join", "matches", "replace", "tokenize", "abs",
    "round-half-to-even",
    "element", "document-node", "schema-element", "schema-attribute", "empty-sequence", "item"]

/-! ### XPath 3.0 -/

/-- The keywords of version 3.0. -/
def keywords30 : List (String × Kind) :=
  [("function", .keyword .kwFunction), ("let", .keyword .kwLet), ("map", .keyword .kwMap),
    ("array", .keyword .kwArray)]

/-- The functions of version 3.0. -/
def functions30 : List String :=
  ["function-lookup", "function-name", "function-arity", "for-each", "for-each-pair", "filter",
    "fold-left", "fold-right", "head", "tail", "innermost", "outermost", "has-children", "path",
    "format-integer", "serialize", "parse-xml"]

/-! ### XPath 3.1 -/

/-- The functions of version 3.1, on maps, on arrays and on JSON. -/
def functions31 : List String :=
  ["map:merge", "map:size", "map:keys", "map:contains", "map:get", "map:find", "map:put",
    "map:entry", "map:remove", "map:for-each",
    "array:size", "array:get", "array:put", "array:append", "array:subarray", "array:remove",
    "array:insert-before", "array:head", "array:tail", "array:reverse", "array:join",
    "array:flatten", "array:for-each", "array:filter", "array:fold-left", "array:fold-right",
    "array:sort",
    "parse-json", "json-doc", "json-to-xml", "xml-to-json", "sort"]

/-! ### The layers together -/

/-- **The layers**, in the order in which their words are entered into a trie. -/
def layers : List Layer :=
  [{ since := .xpath10, words := allOf .axisName axes ++ allOf .functionName functions10 },
    { since := .xpath10, words := keywords10 },
    { since := .xpath20, words := keywords20 ++ allOf .functionName functions20 },
    { since := .xpath30, words := keywords30 ++ allOf .functionName functions30 },
    { since := .xpath31, words := allOf .functionName functions31 }]

/-- **The reserved words of a version**: those of the layers that it or an earlier version
brought. -/
def words (version : Version) : List (String × Kind) :=
  (layers.filter (·.since ≤ version)).flatMap (·.words)

/-- The bytes of a reserved word, each of which is an ASCII character. -/
def wordBytes (word : String) : List UInt8 := word.toList.map Char.toUInt8

/-- The trie of the reserved words of a version. -/
def trie (version : Version) : Trie Kind :=
  Trie.ofList ((words version).map fun (word, kind) => (wordBytes word, kind))

end XPathScan.Lexicon
