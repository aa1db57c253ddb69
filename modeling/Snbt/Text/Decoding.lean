import Snbt.Text.Charset
import Snbt.Text.Utf8

namespace Snbt

/-!
# From bytes to code units

Decoding never fails.  Malformed UTF-8 is replaced byte by byte, an unpaired
surrogate of UTF-16 and a value of UTF-32 that is no character become one
U+FFFD each, and so do the bytes left over at the end.  Without a charset a
byte order mark is looked for and dropped, and input without one is UTF-8; a
charset that is given decodes every byte.
-/

namespace ByteOrder

/-- The number that bytes stored in this order stand for. -/
def value : ByteOrder → List UInt8 → Nat
  | .bigEndian, bytes =>
      bytes.foldl (fun total byte => total * 0x100 + byte.toNat) 0
  | .littleEndian, bytes =>
      bytes.foldr (fun byte total => total * 0x100 + byte.toNat) 0

end ByteOrder

namespace Utf16

/-- The code units that whole pairs of bytes stand for. -/
def unitsOnto (order : ByteOrder) (units : Array CodeUnit) :
    List UInt8 → Array CodeUnit
  | first :: second :: rest =>
      unitsOnto order
        (units.push (UInt16.ofNat (order.value [first, second]))) rest
  | _ =>
      units

/--
The code units of UTF-16 input: lone
surrogates and an odd last byte become U+FFFD.
-/
def ofBytes (order : ByteOrder) (bytes : List UInt8) : Array CodeUnit :=
  let text := (encode (decode (unitsOnto order #[] bytes).toList)).toArray
  if bytes.length % 2 = 0 then
    text
  else
    text.push CodeUnit.replacement

end Utf16

namespace Utf32

/--
The code units that a value spells: those of its character, or
U+FFFD when it is none.
-/
def unitsOfValue (value : Nat) : List CodeUnit :=
  if value.isValidChar then
    Utf16.encodeChar (Char.ofNat value)
  else
    [CodeUnit.replacement]

/-- Append the code units of UTF-32 input. -/
def decodeOnto (order : ByteOrder) (units : Array CodeUnit) :
    List UInt8 → Array CodeUnit
  | first :: second :: third :: fourth :: rest =>
      decodeOnto order
        (units ++ unitsOfValue (order.value [first, second, third, fourth]))
        rest
  | [] =>
      units
  | _ =>
      units.push CodeUnit.replacement

/--
The code units of UTF-32 input: one U+FFFD
for what is no character or is cut short.
-/
def ofBytes (order : ByteOrder) (bytes : List UInt8) : Array CodeUnit :=
  decodeOnto order #[] bytes

end Utf32

namespace Charset

/-- The code units that every byte of the input spells in a charset. -/
def decodeAll : Charset → List UInt8 → Array CodeUnit
  | .utf8, bytes => Utf8.decode bytes
  | .utf16 order, bytes => Utf16.ofBytes order bytes
  | .utf32 order, bytes => Utf32.ofBytes order bytes

/--
The code units that the input spells, in the charset given or the
one its mark tells.
-/
def decode (charset? : Option Charset) (bytes : List UInt8) : Array CodeUnit :=
  match charset? with
  | some charset =>
      charset.decodeAll bytes
  | none =>
      match sniff? bytes with
      | some charset =>
          charset.decodeAll (bytes.drop charset.mark.length)
      | none =>
          decodeAll .utf8 bytes

end Charset

end Snbt
