import PersistentTier.MessagePack.Reader

/-!
# Reading records and enumerations

A record is an array of its fields in order, or a map from the names of its fields to their values
in any order. A map may leave out the fields that may be absent and may hold entries under unknown
names, which are passed over. A binary value stands for the array of its bytes here too, and may be
longer than the record.

A variant of an enumeration is given by its name, or by a map of one entry from its name to its
data. Such a map is a notation for the variant, so it is not a level of nesting. Fields and variants
may also be named by a binary value or by their position.

## Main definitions

* `position`: the field or variant that a value names
* `Schema`, `Schema.decoder`: records
* `unitVariant`, `dataVariant`: enumerations
-/

namespace PersistentTier.MessagePack

/-- The position of a name, given as text, as a binary value or as the position itself. -/
def position (names : List Bytes) : Decoder (Option Nat)
  | .text n | .binary n => do return names.idxOf? (← take n)
  | .unsigned k => pure (if k < names.length then some k else none)
  | _ => failure

/-! ## Records -/

/-- How a record is read. -/
structure Schema (α : Type) where
  /-- The names of the fields, in order. -/
  names : List Bytes
  /-- The positions of the fields that a map may leave out. -/
  optional : List Nat := []
  /-- The record before any field is read. -/
  blank : α
  /-- Puts the value of the field at a position into a record. -/
  field : (i : Nat) → α → Decoder α

namespace Schema

variable {α : Type} (schema : Schema α)

/-- All fields, one value after the other. -/
def inOrder : Reader α :=
  (List.range schema.names.length).foldlM (fun record i => do schema.field i record (← head))
    schema.blank

/-- All fields, each of them a byte taken as an integer. -/
def ofBytes (bytes : Bytes) : Reader α :=
  if bytes.length < schema.names.length then failure
  else
    ((bytes.take schema.names.length).zipIdx).foldlM
      (fun record (b, i) => schema.field i record (.unsigned b.toNat)) schema.blank

/-- `n` entries of a map, with the positions of the fields that have been given. A field may be
given only once. -/
def entries : (n : Nat) → (given : List Nat) → α → Reader (List Nat × α)
  | 0, given, record => pure (given, record)
  | n + 1, given, record => do
    match ← read (position schema.names) with
    | none =>
      skip
      entries n given record
    | some i =>
      if i ∈ given then failure
      else entries n (i :: given) (← read (schema.field i record))

/-- Whether every field is given that has to be. -/
def isComplete (given : List Nat) : Bool :=
  (List.range schema.names.length).all fun i => i ∈ given || i ∈ schema.optional

/-- Reads a record. -/
def decoder : Decoder α
  | .array n => if n = schema.names.length then nested schema.inOrder else failure
  | .binary n => do schema.ofBytes (← take n)
  | .map n => nested do
    let (given, record) ← schema.entries n [] schema.blank
    if schema.isComplete given then return record else failure
  | _ => failure

end Schema

/-! ## Enumerations -/

/-- The variant that a head announces, by position, and whether its data follow. -/
def variant (names : List Bytes) : Decoder (Nat × Bool)
  | .map n => do
    if n ≠ 1 then failure
    let some i ← read (position names) | failure
    return (i, true)
  | h => do
    let some i ← position names h | failure
    return (i, false)

/-- A variant without data: its name, or a map of the name to the absent value. -/
def unitVariant (names : List Bytes) : Decoder Nat := fun h => do
  let (i, hasData) ← variant names h
  if hasData then
    let .null ← head | failure
  return i

/-- A variant with data: a map of the name to the data. -/
def dataVariant (names : List Bytes) : Decoder Nat := fun h => do
  let (i, hasData) ← variant names h
  if hasData then return i else failure

end PersistentTier.MessagePack
