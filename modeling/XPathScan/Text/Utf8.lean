/-!
# Reading bytes as UTF-8

Bytes are cut into pieces, each a character or an ill-formed piece. An ill-formed piece is as long
as it can be while some character starts with it, and one byte long if none does.

* `XPathScan.Text.Utf8.decode?` – the text, if every piece is a character;
* `XPathScan.Text.Utf8.decodeLossy` – the text with U+FFFD for every ill-formed piece.
-/

namespace XPathScan.Text.Utf8

/-- **What the first byte of a character says about the rest**: how many bytes follow, the range
of the first of them, and the bits the first byte contributes. -/
structure Lead where
  /-- The number of bytes that follow. -/
  tail : Nat
  /-- The least byte that may follow. -/
  low : UInt8
  /-- The greatest byte that may follow. -/
  high : UInt8
  /-- The bits of the first byte that belong to the character. -/
  bits : Nat

/-- The reading of a first byte, if a character can start with it. -/
def lead? (b : UInt8) : Option Lead :=
  if b < 0x80 then some ⟨0, 0x80, 0xBF, b.toNat⟩
  else if b < 0xC2 then none
  else if b < 0xE0 then some ⟨1, 0x80, 0xBF, b.toNat % 0x20⟩
  else if b < 0xF0 then
    some ⟨2, if b = 0xE0 then 0xA0 else 0x80, if b = 0xED then 0x9F else 0xBF, b.toNat % 0x10⟩
  else if b < 0xF5 then
    some ⟨3, if b = 0xF0 then 0x90 else 0x80, if b = 0xF4 then 0x8F else 0xBF, b.toNat % 0x08⟩
  else none

/-- A byte that continues a character. -/
def isTail (b : UInt8) : Bool := 0x80 ≤ b && b ≤ 0xBF

/-- The bytes that continue a character after its first byte, at most as many as it needs. -/
def Lead.follow (lead : Lead) : List UInt8 → List UInt8
  | [] => []
  | b :: rest =>
    if 0 < lead.tail && lead.low ≤ b && b ≤ lead.high then
      b :: (rest.take (lead.tail - 1)).takeWhile isTail
    else []

/-- The character made of a first byte and the bytes that follow it, if these are enough. -/
def Lead.char? (lead : Lead) (follow : List UInt8) : Option Char :=
  if follow.length = lead.tail then
    some (Char.ofNat (follow.foldl (fun bits b => bits * 0x40 + b.toNat % 0x40) lead.bits))
  else none

/-- **The pieces of a byte string**: its characters, and `none` for each ill-formed piece. -/
def pieces : List UInt8 → List (Option Char)
  | [] => []
  | b :: rest =>
    match lead? b with
    | none => none :: pieces rest
    | some lead => lead.char? (lead.follow rest) :: pieces (rest.drop (lead.follow rest).length)
termination_by bytes => bytes.length
decreasing_by
  · simp
  · simp only [List.length_drop, List.length_cons]
    omega

/-- The text of bytes that are UTF-8. -/
def decode? (bytes : List UInt8) : Option String :=
  ((pieces bytes).mapM id).map String.ofList

/-- The text of any bytes, with the replacement character for what is not UTF-8. -/
def decodeLossy (bytes : List UInt8) : String :=
  String.ofList ((pieces bytes).map (·.getD (Char.ofNat 0xFFFD)))

end XPathScan.Text.Utf8
