namespace Snbt

/-!
# Charsets

The five Unicode transformation formats that input may come in, the labels that
name them, and the byte order marks that give them away.
-/

/-- The order in which the bytes of a wider unit are stored. -/
inductive ByteOrder where
  | bigEndian
  | littleEndian
  deriving DecidableEq, Repr

/-- A Unicode transformation format. -/
inductive Charset where
  | utf8
  | utf16 (order : ByteOrder)
  | utf32 (order : ByteOrder)
  deriving DecidableEq, Repr

namespace Charset

/-- A charset label that names none of the known charsets. -/
structure UnknownLabel where
  label : String
  deriving DecidableEq, Repr

/-- What is told about an unknown label. -/
def UnknownLabel.message (unknown : UnknownLabel) : String :=
  "unsupported charset `" ++ unknown.label ++ "`"

/-- The canonical label of a charset. -/
def label : Charset → String
  | .utf8 => "UTF-8"
  | .utf16 .bigEndian => "UTF-16BE"
  | .utf16 .littleEndian => "UTF-16LE"
  | .utf32 .bigEndian => "UTF-32BE"
  | .utf32 .littleEndian => "UTF-32LE"

/--
The part of a label that counts: no `-`, no `_`, and ASCII letters lowered.
-/
def foldLabel (label : String) : List Char :=
  (label.toList.filter fun char => char != '-' && char != '_').map Char.toLower

/--
The folded spellings of every charset;
without a byte order they are big-endian.
-/
def spellings : List (String × Charset) :=
  [("utf8", .utf8),
    ("utf16", .utf16 .bigEndian),
    ("utf16be", .utf16 .bigEndian),
    ("utf16le", .utf16 .littleEndian),
    ("utf32", .utf32 .bigEndian),
    ("utf32be", .utf32 .bigEndian),
    ("utf32le", .utf32 .littleEndian)]

/--
The charset that a label names, whatever its case, hyphens and underscores.
-/
def ofLabel (label : String) : Except UnknownLabel Charset :=
  match spellings.lookup (String.ofList (foldLabel label)) with
  | some charset => .ok charset
  | none => .error ⟨label⟩

/-- The bytes of U+FEFF in a charset, which mark it at the start of an input. -/
def mark : Charset → List UInt8
  | .utf8 => [0xEF, 0xBB, 0xBF]
  | .utf16 .bigEndian => [0xFE, 0xFF]
  | .utf16 .littleEndian => [0xFF, 0xFE]
  | .utf32 .bigEndian => [0x00, 0x00, 0xFE, 0xFF]
  | .utf32 .littleEndian => [0xFF, 0xFE, 0x00, 0x00]

/--
The charsets in the order in which their marks are looked for.  UTF-32LE stands
before UTF-16LE because its mark begins with the other's.
-/
def sniffingOrder : List Charset :=
  [.utf8, .utf32 .bigEndian, .utf32 .littleEndian,
    .utf16 .bigEndian, .utf16 .littleEndian]

/-- The charset whose mark the bytes begin with. -/
def sniff? (bytes : List UInt8) : Option Charset :=
  sniffingOrder.find? fun charset => charset.mark.isPrefixOf bytes

end Charset

end Snbt
