/-!
# Kinds of tokens

A kind is one of the classes of names and literals, a reserved word, a symbol, or the end of the
input. Which reserved words are recognized depends on the version; elsewhere the same text is an
identifier.

`union` is the one reserved word that is not a `XPathScan.Keyword`: it means the same as `|` and
has the kind of that symbol.
-/

namespace XPathScan

/-- **The reserved words that are kinds of their own.** -/
inductive Keyword where
  | kwAnd | kwOr | kwDiv | kwMod
  | kwInstance | kwOf | kwCast | kwCastable | kwAs | kwTreat | kwReturn | kwFor | kwIn | kwSome
  | kwEvery | kwIf | kwThen | kwElse | kwTo | kwSatisfies | kwIntersect | kwExcept | kwIdiv
  | kwEq | kwNe | kwLt | kwLe | kwGt | kwGe | kwIs | kwTypeswitch | kwCase | kwDefault | kwAt
  | kwWhere | kwOrder | kwBy | kwAscending | kwDescending | kwStable | kwCollation | kwImport
  | kwSchema | kwModule | kwPreserve | kwStrip
  | kwFunction | kwLet | kwMap | kwArray
  deriving DecidableEq, Repr

/-- Every keyword. -/
def Keyword.all : List Keyword :=
  [.kwAnd, .kwOr, .kwDiv, .kwMod,
    .kwInstance, .kwOf, .kwCast, .kwCastable, .kwAs, .kwTreat, .kwReturn, .kwFor, .kwIn, .kwSome,
    .kwEvery, .kwIf, .kwThen, .kwElse, .kwTo, .kwSatisfies, .kwIntersect, .kwExcept, .kwIdiv,
    .kwEq, .kwNe, .kwLt, .kwLe, .kwGt, .kwGe, .kwIs, .kwTypeswitch, .kwCase, .kwDefault, .kwAt,
    .kwWhere, .kwOrder, .kwBy, .kwAscending, .kwDescending, .kwStable, .kwCollation, .kwImport,
    .kwSchema, .kwModule, .kwPreserve, .kwStrip,
    .kwFunction, .kwLet, .kwMap, .kwArray]

/-- The spelling of a keyword. -/
def Keyword.text : Keyword → String
  | .kwAnd => "and"
  | .kwOr => "or"
  | .kwDiv => "div"
  | .kwMod => "mod"
  | .kwInstance => "instance"
  | .kwOf => "of"
  | .kwCast => "cast"
  | .kwCastable => "castable"
  | .kwAs => "as"
  | .kwTreat => "treat"
  | .kwReturn => "return"
  | .kwFor => "for"
  | .kwIn => "in"
  | .kwSome => "some"
  | .kwEvery => "every"
  | .kwIf => "if"
  | .kwThen => "then"
  | .kwElse => "else"
  | .kwTo => "to"
  | .kwSatisfies => "satisfies"
  | .kwIntersect => "intersect"
  | .kwExcept => "except"
  | .kwIdiv => "idiv"
  | .kwEq => "eq"
  | .kwNe => "ne"
  | .kwLt => "lt"
  | .kwLe => "le"
  | .kwGt => "gt"
  | .kwGe => "ge"
  | .kwIs => "is"
  | .kwTypeswitch => "typeswitch"
  | .kwCase => "case"
  | .kwDefault => "default"
  | .kwAt => "at"
  | .kwWhere => "where"
  | .kwOrder => "order"
  | .kwBy => "by"
  | .kwAscending => "ascending"
  | .kwDescending => "descending"
  | .kwStable => "stable"
  | .kwCollation => "collation"
  | .kwImport => "import"
  | .kwSchema => "schema"
  | .kwModule => "module"
  | .kwPreserve => "preserve"
  | .kwStrip => "strip"
  | .kwFunction => "function"
  | .kwLet => "let"
  | .kwMap => "map"
  | .kwArray => "array"

/-- **Operators and punctuation.** -/
inductive Symbol where
  | slash | doubleSlash
  | equalTo | arrow | notEqualTo
  | greaterThan | greaterThanEqualTo | nodeAfter
  | lessThan | lessThanEqualTo | nodeBefore
  | colon | axisSeparator | assign
  | union | concat
  | simpleMap
  | plus | minus | star
  | questionMark | lookup
  | hash
  | leftParen | rightParen | leftBracket | rightBracket | leftBrace | rightBrace
  | atSign | comma | semicolon
  | contextItem | parentStep
  deriving DecidableEq, Repr

/-- Every symbol. -/
def Symbol.all : List Symbol :=
  [.slash, .doubleSlash, .equalTo, .arrow, .notEqualTo, .greaterThan, .greaterThanEqualTo,
    .nodeAfter, .lessThan, .lessThanEqualTo, .nodeBefore, .colon, .axisSeparator, .assign, .union,
    .concat, .simpleMap, .plus, .minus, .star, .questionMark, .lookup, .hash, .leftParen,
    .rightParen, .leftBracket, .rightBracket, .leftBrace, .rightBrace, .atSign, .comma, .semicolon,
    .contextItem, .parentStep]

/-- The spelling of a symbol. A question mark is a lookup or an occurrence indicator by what
follows it, so the two are spelled alike. -/
def Symbol.text : Symbol → String
  | .slash => "/"
  | .doubleSlash => "//"
  | .equalTo => "="
  | .arrow => "=>"
  | .notEqualTo => "!="
  | .greaterThan => ">"
  | .greaterThanEqualTo => ">="
  | .nodeAfter => ">>"
  | .lessThan => "<"
  | .lessThanEqualTo => "<="
  | .nodeBefore => "<<"
  | .colon => ":"
  | .axisSeparator => "::"
  | .assign => ":="
  | .union => "|"
  | .concat => "||"
  | .simpleMap => "!"
  | .plus => "+"
  | .minus => "-"
  | .star => "*"
  | .questionMark => "?"
  | .lookup => "?"
  | .hash => "#"
  | .leftParen => "("
  | .rightParen => ")"
  | .leftBracket => "["
  | .rightBracket => "]"
  | .leftBrace => "\x7b"
  | .rightBrace => "\x7d"
  | .atSign => "@"
  | .comma => ","
  | .semicolon => ";"
  | .contextItem => "."
  | .parentStep => ".."

/-- The name of a symbol. -/
def Symbol.label : Symbol → String
  | .slash => "Slash"
  | .doubleSlash => "DoubleSlash"
  | .equalTo => "EqualTo"
  | .arrow => "Arrow"
  | .notEqualTo => "NotEqualTo"
  | .greaterThan => "GreaterThan"
  | .greaterThanEqualTo => "GreaterThanEqualTo"
  | .nodeAfter => "NodeAfter"
  | .lessThan => "LessThan"
  | .lessThanEqualTo => "LessThanEqualTo"
  | .nodeBefore => "NodeBefore"
  | .colon => "Colon"
  | .axisSeparator => "AxisSeparator"
  | .assign => "Assign"
  | .union => "Union"
  | .concat => "Concat"
  | .simpleMap => "SimpleMap"
  | .plus => "Plus"
  | .minus => "Minus"
  | .star => "Star"
  | .questionMark => "QuestionMark"
  | .lookup => "Lookup"
  | .hash => "Hash"
  | .leftParen => "LeftParen"
  | .rightParen => "RightParen"
  | .leftBracket => "LeftBracket"
  | .rightBracket => "RightBracket"
  | .leftBrace => "LeftBrace"
  | .rightBrace => "RightBrace"
  | .atSign => "AtSign"
  | .comma => "Comma"
  | .semicolon => "Semicolon"
  | .contextItem => "ContextItem"
  | .parentStep => "ParentStep"

/-- **The kind of a token.** -/
inductive Kind where
  /-- The end of the input. -/
  | eof
  /-- A name that is not reserved. -/
  | identifier
  /-- Two names joined by a colon. -/
  | qName
  /-- A name with a URI between braces. -/
  | uriQualifiedName
  /-- A name after `$`. -/
  | variableReference
  /-- The name of an axis. -/
  | axisName
  /-- The name of a built-in function or of a node test. -/
  | functionName
  /-- Digits alone. -/
  | integerLiteral
  /-- Digits with a point. -/
  | decimalLiteral
  /-- Digits with an exponent. -/
  | doubleLiteral
  /-- Text between quotes. -/
  | stringLiteral
  /-- A reserved word. -/
  | keyword (word : Keyword)
  /-- An operator or punctuation. -/
  | symbol (s : Symbol)
  deriving DecidableEq, Repr

namespace Kind

/-- Every kind. -/
def all : List Kind :=
  [.eof, .identifier, .qName, .uriQualifiedName, .variableReference, .axisName, .functionName,
    .integerLiteral, .decimalLiteral, .doubleLiteral, .stringLiteral] ++
    Keyword.all.map .keyword ++ Symbol.all.map .symbol

/-- The name of a kind. A keyword's name is its spelling with a capital. -/
def label : Kind → String
  | .eof => "Eof"
  | .identifier => "Identifier"
  | .qName => "QName"
  | .uriQualifiedName => "UriQualifiedName"
  | .variableReference => "VariableReference"
  | .axisName => "AxisName"
  | .functionName => "FunctionName"
  | .integerLiteral => "IntegerLiteral"
  | .decimalLiteral => "DecimalLiteral"
  | .doubleLiteral => "DoubleLiteral"
  | .stringLiteral => "StringLiteral"
  | .keyword word => word.text.capitalize
  | .symbol s => s.label

/-- The kind with a given name. -/
def ofLabel? (label : String) : Option Kind := all.find? (·.label == label)

/-- The spelling of a kind that is a reserved word; for the symbol `|` that is `union`. -/
def reservedWord? : Kind → Option String
  | .keyword word => some word.text
  | .symbol .union => some "union"
  | _ => none

/-- A kind that a reserved word has. -/
def isReservedWord (k : Kind) : Bool := k.reservedWord?.isSome

/-- A kind whose lexeme is always a name. The symbol `|` is not one, although it can be spelled
`union`. -/
def isName : Kind → Bool
  | .identifier | .qName | .uriQualifiedName | .axisName | .functionName | .keyword _ => true
  | _ => false

/-- A kind of literal. -/
def isLiteral : Kind → Bool
  | .integerLiteral | .decimalLiteral | .doubleLiteral | .stringLiteral => true
  | _ => false

/-- **A kind in the words of a diagnostic**: a description of names and literals, the spelling of
everything else. -/
def description : Kind → String
  | .eof => "end of input"
  | .identifier => "identifier"
  | .qName => "qualified name"
  | .uriQualifiedName => "URI-qualified name"
  | .variableReference => "variable reference"
  | .axisName => "axis name"
  | .functionName => "function name"
  | .integerLiteral => "integer literal"
  | .decimalLiteral => "decimal literal"
  | .doubleLiteral => "double literal"
  | .stringLiteral => "string literal"
  | .keyword word => word.text
  | .symbol s => s.text

end Kind

end XPathScan
