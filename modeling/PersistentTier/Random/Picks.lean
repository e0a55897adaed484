import PersistentTier.Random.KeyStream

/-!
# Picks

A source of picks is a stream of words and the number of words used. A pick among `count` positions
scales the next word down to the positions. Words that would favour some positions are refused, so
that each position has the same share of the words.

## Main definitions

* `Picks`, `Picks.next`
* `Picks.ofSeed`: the picks that belong to a seed

## Main results

* `Picks.next_lt`: a pick is one of the positions, whatever the stream
-/

namespace PersistentTier

/-- A source of picks. -/
structure Picks where
  /-- The stream of words. -/
  draw : Nat → UInt64
  /-- The number of words used so far. -/
  used : Nat := 0

namespace Picks

/-- The position of a word among `count` positions: the high half of their product. -/
def scale (count word : UInt64) : Nat :=
  word.toNat * count.toNat / UInt64.size

/-- Whether a word counts: the low half of its product with `count` is below the largest multiple
of `count` by a power of two. -/
def fair (count word : UInt64) : Bool :=
  word.toNat * count.toNat % UInt64.size < count.toNat <<< (63 - count.toNat.log2)

/-- The next pick. Of `attempts` refused words in a row the one after them is taken as it is. -/
def nextWithin (picks : Picks) (count : UInt64) : (attempts : Nat) → Nat × Picks
  | 0 => (scale count (picks.draw picks.used), { picks with used := picks.used + 1 })
  | attempts + 1 =>
    let word := picks.draw picks.used
    let picks := { picks with used := picks.used + 1 }
    if fair count word then (scale count word, picks) else nextWithin picks count attempts

/-- The next pick among `count` positions. At least half of all words are fair, so that a
thousand refused words in a row do not happen. -/
def next (picks : Picks) (count : UInt64) : Nat × Picks :=
  picks.nextWithin count 1000

theorem scale_lt {count : UInt64} (h : 0 < count.toNat) (word : UInt64) :
    scale count word < count.toNat := by
  have hw := word.toNat_lt
  unfold scale
  rw [Nat.div_lt_iff_lt_mul (by decide), Nat.mul_comm count.toNat]
  exact Nat.mul_lt_mul_of_pos_right hw h

theorem nextWithin_lt (picks : Picks) {count : UInt64} (h : 0 < count.toNat) (attempts : Nat) :
    (picks.nextWithin count attempts).1 < count.toNat := by
  induction attempts generalizing picks with
  | zero => exact scale_lt h _
  | succ attempts ih =>
    simp only [nextWithin]
    split
    · exact scale_lt h _
    · exact ih _

/-- A pick is one of the positions. -/
theorem next_lt (picks : Picks) {count : UInt64} (h : 0 < count.toNat) :
    (picks.next count).1 < count.toNat :=
  nextWithin_lt picks h 1000

/-! ## Seeds -/

/-- One step of the generator that stretches a seed. -/
def step (state : UInt64) : UInt64 :=
  state * 6364136223846793005 + 11634580027462260723

/-- The output for a state: its high bits, turned by the highest of them. -/
def stretched (state : UInt64) : UInt32 :=
  let high := (((state >>> 18) ^^^ state) >>> 27).toUInt32
  let amount := (state >>> 59).toUInt32
  (high >>> amount) ||| (high <<< ((32 - amount) % 32))

/-- The four words after a state, and the state after them. -/
def row (state : UInt64) : KeyStream.Row × UInt64 :=
  let s₁ := step state
  let s₂ := step s₁
  let s₃ := step s₂
  let s₄ := step s₃
  (⟨stretched s₁, stretched s₂, stretched s₃, stretched s₄⟩, s₄)

/-- The key of a seed: eight words that the seed is stretched to. -/
def key (seed : UInt64) : KeyStream.Key :=
  let (low, state) := row seed
  let (high, _) := row state
  ⟨low, high⟩

/-- The picks of a seed. -/
def ofSeed (seed : UInt64) : Picks where
  draw := KeyStream.word (key seed)

instance : Inhabited Picks := ⟨ofSeed 0⟩

end Picks

end PersistentTier
