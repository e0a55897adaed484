import PersistentTier.Bytes

/-!
# Writing MessagePack

Values are written in their shortest form: unsigned integers in the smallest of the five widths,
array headers in the smallest of the three. Byte strings are written as arrays of integers, records
as arrays of their fields, and a variant with data as a map of one entry, its name to its data.

## Main definitions

* `writeUnsigned`, `writeWord`, `writeArrayHeader`, `writeName`, `writeNull`
* `writeArray`, `writeOctets`, `writeOption`, `writeTagged`
-/

namespace PersistentTier.MessagePack

/-- An unsigned integer below `2 ^ 64` in its smallest width. -/
def writeUnsigned (n : Nat) : Bytes :=
  if n < 128 then [UInt8.ofNat n]
  else if n < UInt8.size then 0xcc :: bigEndian 1 n
  else if n < UInt16.size then 0xcd :: bigEndian 2 n
  else if n < UInt32.size then 0xce :: bigEndian 4 n
  else 0xcf :: bigEndian 8 n

/-- A 64-bit word. -/
def writeWord (w : UInt64) : Bytes := writeUnsigned w.toNat

/-- The header of an array of `n < 2 ^ 32` items. -/
def writeArrayHeader (n : Nat) : Bytes :=
  if n < 16 then [UInt8.ofNat (0x90 + n)]
  else if n < UInt16.size then 0xdc :: bigEndian 2 n
  else 0xdd :: bigEndian 4 n

/-- A name of fewer than 32 bytes. -/
def writeName (text : Bytes) : Bytes := UInt8.ofNat (0xa0 + text.length) :: text

/-- The absent value. -/
def writeNull : Bytes := [0xc0]

/-- An array, given how to write one item. -/
def writeArray {α : Type} (item : α → Bytes) (items : List α) : Bytes :=
  writeArrayHeader items.length ++ items.flatMap item

/-- A byte string, as an array of integers. -/
def writeOctets (bytes : Bytes) : Bytes :=
  writeArray (fun b => writeUnsigned b.toNat) bytes

/-- A value that may be absent, given how to write one that is present. -/
def writeOption {α : Type} (item : α → Bytes) : Option α → Bytes
  | none => writeNull
  | some value => item value

/-- A variant with data: a map of one entry. -/
def writeTagged (tag payload : Bytes) : Bytes := 0x81 :: (writeName tag ++ payload)

end PersistentTier.MessagePack
