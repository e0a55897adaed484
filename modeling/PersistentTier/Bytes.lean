/-!
# Byte strings

Keys, values, commands and files are lists of bytes. Fixed-width numbers inside a file are written
most significant byte first (`bigEndian`) or last (`littleEndian`).

## Main definitions

* `Bytes`: byte strings, compared lexicographically
* `Bytes.ofString`: the UTF-8 form of a text
* `Bytes.front?`: the first `n` bytes and the rest, if there are that many
* `bigEndian`, `littleEndian` and their inverses
-/

namespace PersistentTier

/-- A byte string. -/
abbrev Bytes := List UInt8

namespace Bytes

/-- The bytes of a text made of ASCII characters. -/
def ascii (s : String) : Bytes := s.toList.map fun c => c.toNat.toUInt8

/-- The UTF-8 form of a text. -/
def ofString (s : String) : Bytes := s.toUTF8.toList

/-- The first `n` bytes and what follows them, provided there are at least `n`. -/
def front? (n : Nat) (bytes : Bytes) : Option (Bytes × Bytes) :=
  let front := bytes.take n
  if front.length = n then some (front, bytes.drop n) else none

theorem front?_eq_some_iff {n : Nat} {bytes front rest : Bytes} :
    front? n bytes = some (front, rest) ↔ front.length = n ∧ bytes = front ++ rest := by
  simp only [front?]
  constructor
  · intro h
    split at h
    · rename_i hn
      obtain ⟨rfl, rfl⟩ := by simpa using h
      exact ⟨hn, (List.take_append_drop n bytes).symm⟩
    · simp at h
  · rintro ⟨rfl, rfl⟩
    simp

/-- A front is refused exactly when the bytes run short. -/
theorem front?_eq_none_iff {n : Nat} {bytes : Bytes} :
    front? n bytes = none ↔ bytes.length < n := by
  simp only [front?, List.length_take]
  split <;> simp <;> omega

end Bytes

/-- The last `width` base-256 digits of `n`, most significant first. -/
def bigEndian : (width : Nat) → (n : Nat) → Bytes
  | 0, _ => []
  | width + 1, n => UInt8.ofNat (n >>> (8 * width)) :: bigEndian width n

/-- The number whose base-256 digits are the given bytes, most significant first. -/
def ofBigEndian (bytes : Bytes) : Nat := bytes.foldl (fun n b => n * 256 + b.toNat) 0

/-- The last `width` base-256 digits of `n`, least significant first. -/
def littleEndian : (width : Nat) → (n : Nat) → Bytes
  | 0, _ => []
  | width + 1, n => UInt8.ofNat n :: littleEndian width (n / 256)

/-- The number whose base-256 digits are the given bytes, least significant first. -/
def ofLittleEndian : Bytes → Nat
  | [] => 0
  | b :: rest => b.toNat + 256 * ofLittleEndian rest

@[simp] theorem length_bigEndian (width n : Nat) : (bigEndian width n).length = width := by
  induction width with
  | zero => rfl
  | succ width ih => simp [bigEndian, ih]

@[simp] theorem length_littleEndian (width n : Nat) : (littleEndian width n).length = width := by
  induction width generalizing n with
  | zero => rfl
  | succ width ih => simp [littleEndian, ih]

end PersistentTier
