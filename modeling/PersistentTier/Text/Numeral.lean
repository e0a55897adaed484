/-!
# Decimal numerals

A numeral is a sequence of ASCII digits, which a plus sign may precede. It is read if its value is
a 64-bit word.

## Main definitions

* `Text.digitsValue?`: the value of a sequence of digits
* `Text.wordOfNumeral?`: the value of a numeral
-/

namespace PersistentTier.Text

/-- The value of decimal digits that continue `value`. -/
def digitsValueFrom? (value : Nat) : List Char → Option Nat
  | [] => some value
  | c :: rest =>
    if '0' ≤ c ∧ c ≤ '9' then digitsValueFrom? (value * 10 + (c.toNat - '0'.toNat)) rest
    else none

/-- The value of one decimal digit or more. -/
def digitsValue? (digits : List Char) : Option Nat :=
  if digits.isEmpty then none else digitsValueFrom? 0 digits

/-- The value of a numeral, if it is a 64-bit word. -/
def wordOfNumeral? (numeral : String) : Option Nat := do
  let value ← match numeral.toList with
    | '+' :: digits => digitsValue? digits
    | digits => digitsValue? digits
  if value < UInt64.size then some value else none

example : wordOfNumeral? "+007" = some 7 := by decide
example : wordOfNumeral? "-1" = none := by decide
example : wordOfNumeral? "18446744073709551616" = none := by decide

end PersistentTier.Text
