import DeskCalc.Text.Utf8

/-!
# Encodings

A document that comes as bytes is encoded in units of one, two or four bytes.  Since it begins with
characters below 128, the zeros among its first four bytes tell which units these are, and whether
their high or their low bytes come first.

The main definitions are `Encoding.ofBytes`, which finds the encoding, and `Encoding.decode?`, which
reads the text.
-/

namespace DeskCalc.Text

/-- Which byte of a unit comes first. -/
inductive ByteOrder where
  | highFirst
  | lowFirst
deriving Repr, DecidableEq

/-- The number of a unit of two bytes. -/
def ByteOrder.pair : ByteOrder → (a b : Nat) → Nat
  | highFirst, a, b => a * 0x100 + b
  | lowFirst, a, b => a + b * 0x100

/-- The number of a unit of four bytes. -/
def ByteOrder.quad : ByteOrder → (a b c d : Nat) → Nat
  | highFirst, a, b, c, d => highFirst.pair a b * 0x10000 + highFirst.pair c d
  | lowFirst, a, b, c, d => lowFirst.pair a b + lowFirst.pair c d * 0x10000

/-- How a text is kept as bytes. -/
inductive Encoding where
  | utf8
  | utf16 (order : ByteOrder)
  | utf32 (order : ByteOrder)
deriving Repr, DecidableEq

/-- The encoding that the zeros among the first bytes of a document tell.  Where there are only two
bytes, they are one unit of two or two units of one. -/
def Encoding.ofBytes : List Nat → Encoding
  | [a, b] =>
    if a = 0 then utf16 .highFirst else if b = 0 then utf16 .lowFirst else utf8
  | a :: b :: c :: d :: _ =>
    if a = 0 then
      if b = 0 then utf32 .highFirst else utf16 .highFirst
    else if b = 0 then
      if c = 0 ∧ d = 0 then utf32 .lowFirst else utf16 .lowFirst
    else utf8
  | _ => utf8

/-- Bytes as units of two, unless one is left over. -/
def pairUnits? (order : ByteOrder) : List Nat → Option (List Nat)
  | [] => some []
  | a :: b :: bytes => (pairUnits? order bytes).map (order.pair a b :: ·)
  | [_] => none

/-- Bytes as units of four, unless some are left over. -/
def quadUnits? (order : ByteOrder) : List Nat → Option (List Nat)
  | [] => some []
  | a :: b :: c :: d :: bytes => (quadUnits? order bytes).map (order.quad a b c d :: ·)
  | _ => none

/-- The text of units of two bytes.  The halves of a pair that follow each other are one
character. -/
def ofPairUnits : List Nat → Text
  | [] => []
  | [unit] => ofCode unit
  | unit :: next :: units =>
    if isHighHalf unit && isLowHalf next then ofCode (ofHalves unit next) ++ ofPairUnits units
    else ofCode unit ++ ofPairUnits (next :: units)

/-- The text of units of four bytes, unless one of them is beyond the last character. -/
def ofQuadUnits? (units : List Nat) : Option Text :=
  if units.all (· < 0x110000) then some (ofCodes units) else none

/-- The text of bytes in an encoding.  In units of two or four bytes a half of a pair is kept. -/
def Encoding.decode? : Encoding → List Nat → Option Text
  | utf8, bytes => some (ofUtf8 bytes)
  | utf16 order, bytes => (pairUnits? order bytes).map ofPairUnits
  | utf32 order, bytes => (quadUnits? order bytes).bind ofQuadUnits?

/-- The text of a document that comes as bytes, if there is one. -/
def ofDocumentBytes? (bytes : List Nat) : Option Text :=
  (Encoding.ofBytes bytes).decode? bytes

end DeskCalc.Text
