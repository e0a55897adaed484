import PersistentTier.Bytes

/-!
# Reading MessagePack

A reader takes a value off the front of a byte string or refuses. Reading is more liberal than
writing: integers come in any width and either sign as long as the value fits, headers need not be
minimal, and wherever a sequence is expected a binary value stands for the sequence of its bytes.

Every value starts with a `Head`, and a `Decoder` continues from a head that has been taken, so one
head of look-ahead is all that the format needs. Arrays, maps and extensions may be nested up to
`nestingLimit`, and a reader knows how much room for nesting is left to it.

## Main definitions

* `Scanner`, `Head`, `head`: the front of a byte string
* `Reader`, `nested`, `Decoder`, `read`: values within the room that is left
* `below`, `word`, `octets`, `option`, `listOf`
* `skip`: pass over one value of any type
* `decode?`: the value at the front of a byte string
-/

namespace PersistentTier.MessagePack

/-- Takes something off the front of a byte string, or refuses. -/
abbrev Scanner := StateT Bytes Option

/-- The first part of a value: the value itself if it is a number, its length otherwise. -/
inductive Head
  | unsigned (n : Nat)
  | signed (i : Int)
  | null
  | bool (b : Bool)
  | float
  | text (length : Nat)
  | binary (length : Nat)
  | array (length : Nat)
  | map (length : Nat)
  | extension (length : Nat)
  deriving DecidableEq, Repr

/-- The next `n` bytes. -/
def take (n : Nat) : Scanner Bytes := fun bytes => bytes.front? n

/-- The next byte. -/
def byte : Scanner UInt8
  | [] => none
  | b :: rest => some (b, rest)

/-- A big-endian number of `width` bytes. -/
def number (width : Nat) : Scanner Nat := do
  return ofBigEndian (← take width)

/-- A big-endian number of `width` bytes in two's complement. -/
def signedNumber (width : Nat) : Scanner Int := do
  let n ← number width
  return if n < 1 <<< (8 * width - 1) then (n : Int) else (n : Int) - (1 <<< (8 * width) : Nat)

/-- The head that the marker byte `m` announces. -/
def headOf (m : Nat) : Scanner Head :=
  if m < 0x80 then pure (.unsigned m)
  else if m < 0x90 then pure (.map (m - 0x80))
  else if m < 0xa0 then pure (.array (m - 0x90))
  else if m < 0xc0 then pure (.text (m - 0xa0))
  else if 0xe0 ≤ m then pure (.signed ((m : Int) - 256))
  else match m with
    | 0xc0 => pure .null
    | 0xc2 => pure (.bool false)
    | 0xc3 => pure (.bool true)
    | 0xc4 => return .binary (← number 1)
    | 0xc5 => return .binary (← number 2)
    | 0xc6 => return .binary (← number 4)
    | 0xc7 => return .extension (← number 1)
    | 0xc8 => return .extension (← number 2)
    | 0xc9 => return .extension (← number 4)
    | 0xca => do let _ ← take 4; return .float
    | 0xcb => do let _ ← take 8; return .float
    | 0xcc => return .unsigned (← number 1)
    | 0xcd => return .unsigned (← number 2)
    | 0xce => return .unsigned (← number 4)
    | 0xcf => return .unsigned (← number 8)
    | 0xd0 => return .signed (← signedNumber 1)
    | 0xd1 => return .signed (← signedNumber 2)
    | 0xd2 => return .signed (← signedNumber 4)
    | 0xd3 => return .signed (← signedNumber 8)
    | 0xd4 => pure (.extension 1)
    | 0xd5 => pure (.extension 2)
    | 0xd6 => pure (.extension 4)
    | 0xd7 => pure (.extension 8)
    | 0xd8 => pure (.extension 16)
    | 0xd9 => return .text (← number 1)
    | 0xda => return .text (← number 2)
    | 0xdb => return .text (← number 4)
    | 0xdc => return .array (← number 2)
    | 0xdd => return .array (← number 4)
    | 0xde => return .map (← number 2)
    | 0xdf => return .map (← number 4)
    | _ => failure

/-- The head of the next value. -/
def head : Scanner Head := do headOf (← byte).toNat

/-! ## Values -/

/-- Takes a value off the front of a byte string, with room for so many levels of nesting, or
refuses. -/
abbrev Reader := ReaderT Nat Scanner

/-- What stands one level further in. It is refused if no room is left. -/
def nested {α : Type} (inner : Reader α) : Reader α
  | 0 => failure
  | room + 1 => inner room

/-- Continues from the head of a value. -/
abbrev Decoder (α : Type) := Head → Reader α

/-- A whole value. -/
def read {α : Type} (decode : Decoder α) : Reader α := do decode (← head)

/-! ## Numbers and byte strings -/

/-- An integer from zero up to a bound, whatever its width and sign. -/
def below (bound : Nat) : Decoder Nat
  | .unsigned n => if n < bound then pure n else failure
  | .signed i => if 0 ≤ i ∧ i < bound then pure i.toNat else failure
  | _ => failure

/-- A 64-bit word. -/
def word : Decoder UInt64 := fun h => do return UInt64.ofNat (← below UInt64.size h)

/-- A byte as an integer. -/
def octet : Decoder UInt8 := fun h => do return UInt8.ofNat (← below 256 h)

/-- `n` values after another, put in front of those read before. -/
def many {α : Type} (item : Decoder α) : (n : Nat) → (before : List α) → Reader (List α)
  | 0, before => pure before.reverse
  | n + 1, before => do
    let value ← read item
    many item n (value :: before)

/-- An array, or a binary value whose bytes are taken as integers. -/
def listOf {α : Type} (item : Decoder α) : Decoder (List α)
  | .array n => nested (many item n [])
  | .binary n => do (← take n).mapM fun b => item (.unsigned b.toNat)
  | _ => failure

/-- A byte string. Text is refused. -/
def octets : Decoder Bytes := listOf octet

/-- A value that may be absent. -/
def option {α : Type} (item : Decoder α) : Decoder (Option α)
  | .null => pure none
  | h => do return some (← item h)

/-! ## Values of no interest -/

/-- The same scan `n` times. -/
def repeated (step : Scanner Unit) : Nat → Scanner Unit
  | 0 => pure ()
  | n + 1 => do step; repeated step n

/-- Passes over one value with room for so many levels of nesting. An extension is a level of its
own. -/
def skipWithin (room : Nat) : Scanner Unit := do
  match ← head with
  | .text n | .binary n => let _ ← take n
  | .extension n =>
    match room with
    | 0 => failure
    | _ + 1 => let _ ← take (n + 1)
  | .array n =>
    match room with
    | 0 => failure
    | room + 1 => repeated (skipWithin room) n
  | .map n =>
    match room with
    | 0 => failure
    | room + 1 => repeated (skipWithin room) (2 * n)
  | _ => pure ()

/-- Passes over one value. -/
def skip : Reader Unit := fun room => skipWithin room

/-! ## Whole byte strings -/

/-- The number of levels that may be nested. -/
def nestingLimit : Nat := 1023

/-- The value at the front of a byte string. What follows it is of no interest. -/
def decode? {α : Type} (item : Decoder α) (bytes : Bytes) : Option α :=
  (read item nestingLimit bytes).map Prod.fst

end PersistentTier.MessagePack
