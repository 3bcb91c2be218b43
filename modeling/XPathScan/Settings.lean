import XPathScan.Error
import XPathScan.Version

/-!
# Settings

What a lexer is told when it is made: the size of a buffer, which bounds the length of a token,
and the version of the language. Settings can be read from a small document of plain values,
either an object with a field for each or a list of the two in order; what is left out is as by
default.
-/

namespace XPathScan

/-- **The settings of a lexer.** -/
structure Settings where
  /-- The size of each of the two buffers. -/
  bufferSize : Nat := 4096
  /-- The version of the language. -/
  version : Version := .xpath31
  deriving DecidableEq, Repr

namespace Settings

/-- Whether a window can be made from the settings. -/
def validate (s : Settings) : Except ConfigurationError Unit :=
  if s.bufferSize = 0 then .error (.invalidBufferSize s.bufferSize) else .ok ()

/-- **A plain value**, of which documents are made. -/
inductive Value where
  /-- Nothing. -/
  | null
  /-- A truth value. -/
  | bool (b : Bool)
  /-- A number that is written without fraction and exponent. -/
  | integer (i : Int)
  /-- Any other number. -/
  | fractional
  /-- A text. -/
  | text (s : String)
  /-- A list of values. -/
  | list (values : List Value)
  /-- Values under names. -/
  | object (fields : List (String × Value))
  deriving Inhabited

/-- A buffer size is an integer that is not negative and fits into 64 bits. -/
def Value.bufferSize? : Value → Option Nat
  | .integer i => if 0 ≤ i ∧ i.toNat < UInt64.size then some i.toNat else none
  | _ => none

/-- A version is its exact number, which may also be the one name in an object that holds
nothing. -/
def Value.version? : Value → Option Version
  | .text s => Version.ofText? s
  | .object [(name, .null)] => Version.ofText? name
  | _ => none

/-- A field of a document: the default where it is left out, and nothing where it does not
read. -/
def readField {α : Type} (read : Value → Option α) (default : α) : Option Value → Option α
  | none => some default
  | some value => read value

/-- Settings from a buffer size and a version, each of which may be left out. -/
def ofFields? (bufferSize version : Option Value) : Option Settings := do
  let bufferSize ← readField Value.bufferSize? ({} : Settings).bufferSize bufferSize
  let version ← readField Value.version? ({} : Settings).version version
  pure { bufferSize, version }

/-- **Read settings from a document.** Fields with other names do not matter; a list has no more
than the two elements. -/
def ofValue? : Value → Option Settings
  | .object fields => ofFields? (fields.lookup "buffer_size") (fields.lookup "version")
  | .list [] => ofFields? none none
  | .list [bufferSize] => ofFields? (some bufferSize) none
  | .list [bufferSize, version] => ofFields? (some bufferSize) (some version)
  | _ => none

end Settings

end XPathScan
