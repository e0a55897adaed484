import PersistentTier.Bytes

/-!
# Reading bytes as text

Bytes that are not valid UTF-8 are shown with replacement characters. A sequence that stops being
well-formed counts as one error up to the byte at which it went wrong, and reading resumes there.

## Main definitions

* `Text.leadRange?`: what must follow a lead byte
* `Text.lossyChars`, `Text.lossy`
-/

namespace PersistentTier.Text

/-- The character shown for bytes that are not text. -/
def replacement : Char := '\ufffd'

/-- For a lead byte of a longer sequence: the bits it contributes, the range of the byte after it,
and the number of bytes after that one. The ranges rule out overlong forms, surrogates and values
past the last code point. -/
def leadRange? (lead : Nat) : Option (Nat × (Nat × Nat) × Nat) :=
  if lead < 0xc2 then none
  else if lead < 0xe0 then some (lead - 0xc0, (0x80, 0xbf), 0)
  else if lead = 0xe0 then some (0, (0xa0, 0xbf), 1)
  else if lead = 0xed then some (0xd, (0x80, 0x9f), 1)
  else if lead < 0xf0 then some (lead - 0xe0, (0x80, 0xbf), 1)
  else if lead = 0xf0 then some (0, (0x90, 0xbf), 2)
  else if lead < 0xf4 then some (lead - 0xf0, (0x80, 0xbf), 2)
  else if lead = 0xf4 then some (4, (0x80, 0x8f), 2)
  else none

/-- Where reading stands: between characters, or inside a sequence. -/
inductive LossyState
  | between
  /-- `value` is known, the next byte has to lie in `range`, and `more` bytes follow that one. -/
  | within (value : Nat) (range : Nat × Nat) (more : Nat)
  deriving DecidableEq, Repr

/-- The state and the characters that a byte leads to between characters. -/
def lossyStart (b : Nat) : LossyState × List Char :=
  if b < 0x80 then (.between, [Char.ofNat b])
  else match leadRange? b with
    | some (value, range, more) => (.within value range more, [])
    | none => (.between, [replacement])

/-- The state and the characters that a byte leads to. -/
def lossyStep (state : LossyState) (b : Nat) : LossyState × List Char :=
  match state with
  | .between => lossyStart b
  | .within value (low, high) more =>
    if low ≤ b ∧ b ≤ high then
      let value := value * 64 + (b - 0x80)
      match more with
      | 0 => (.between, [Char.ofNat value])
      | more + 1 => (.within value (0x80, 0xbf) more, [])
    else
      let (state, chars) := lossyStart b
      (state, replacement :: chars)

/-- The characters of a byte string. A sequence that the bytes end within is one error. -/
def lossyChars : LossyState → Bytes → List Char
  | .between, [] => []
  | .within .., [] => [replacement]
  | state, b :: rest =>
    let (state, chars) := lossyStep state b.toNat
    chars ++ lossyChars state rest

/-- A byte string as text. -/
def lossy (bytes : Bytes) : String := String.ofList (lossyChars .between bytes)

example : lossy [0x61, 0xd0, 0xba, 0xff, 0xe2, 0x82, 0x41] = "aк\ufffd\ufffdA" := by decide

end PersistentTier.Text
