/-!
# A stream of words from a key

Pseudo-random words come from a block function run on a counter. A block is four rows of four
words: a fixed row, two rows of key and a row with the counter. Twelve rounds mix it, alternately
down the columns and down the diagonals; the sum of the mixed block and the block before the mixing
is the output.

## Main definitions

* `KeyStream.Key`, `KeyStream.block`
* `KeyStream.word`: the words of 64 bits, two words of a block each
-/

namespace PersistentTier.KeyStream

/-- Four words side by side. -/
structure Row where
  a : UInt32
  b : UInt32
  c : UInt32
  d : UInt32
  deriving DecidableEq, Repr, Inhabited

namespace Row

/-- Joins two rows word by word. -/
def zipWith (f : UInt32 → UInt32 → UInt32) (r s : Row) : Row :=
  ⟨f r.a s.a, f r.b s.b, f r.c s.c, f r.d s.d⟩

/-- Changes every word. -/
def map (f : UInt32 → UInt32) (r : Row) : Row :=
  ⟨f r.a, f r.b, f r.c, f r.d⟩

/-- Moves each word one place to the left, the first to the end. -/
def shift (r : Row) : Row :=
  ⟨r.b, r.c, r.d, r.a⟩

/-- The words of a row. -/
def words (r : Row) : List UInt32 :=
  [r.a, r.b, r.c, r.d]

/-- Four shifts bring every word back to its place. -/
theorem shift_shift_shift_shift (r : Row) : r.shift.shift.shift.shift = r := rfl

end Row

/-- Four rows, the state of the mixing. -/
structure Block where
  first : Row
  second : Row
  third : Row
  fourth : Row
  deriving DecidableEq, Repr, Inhabited

/-- The secret that a stream is made from. -/
structure Key where
  low : Row
  high : Row
  deriving DecidableEq, Repr, Inhabited

/-- The rotation of a word to the left. -/
def turn (n x : UInt32) : UInt32 :=
  (x <<< n) ||| (x >>> (32 - n))

namespace Block

/-- Adds `s` to `r` and turns the difference of `t` and the sum by `n`. -/
def stir (n : UInt32) (r s t : Row) : Row × Row :=
  let sum := r.zipWith (· + ·) s
  (sum, (t.zipWith (· ^^^ ·) sum).map (turn n))

/-- Mixes each column. -/
def columnRound (s : Block) : Block :=
  let (a, d) := stir 16 s.first s.second s.fourth
  let (c, b) := stir 12 s.third d s.second
  let (a, d) := stir 8 a b d
  let (c, b) := stir 7 c d b
  ⟨a, b, c, d⟩

/-- Brings the diagonals into columns. -/
def slant (s : Block) : Block :=
  ⟨s.first, s.second.shift, s.third.shift.shift, s.fourth.shift.shift.shift⟩

/-- Brings the diagonals back to their places. -/
def unslant (s : Block) : Block :=
  ⟨s.first, s.second.shift.shift.shift, s.third.shift.shift, s.fourth.shift⟩

theorem unslant_slant (s : Block) : s.slant.unslant = s := rfl

/-- A round on the columns, then one on the diagonals. -/
def doubleRound (s : Block) : Block :=
  s.columnRound.slant.columnRound.unslant

/-- Joins two blocks word by word. -/
def zipWith (f : UInt32 → UInt32 → UInt32) (s t : Block) : Block :=
  ⟨s.first.zipWith f t.first, s.second.zipWith f t.second, s.third.zipWith f t.third,
    s.fourth.zipWith f t.fourth⟩

/-- The words of a block, row after row. -/
def words (s : Block) : List UInt32 :=
  s.first.words ++ s.second.words ++ s.third.words ++ s.fourth.words

end Block

/-- The number of pairs of rounds. -/
def doubleRounds : Nat := 6

/-- The block before its mixing. The fixed row spells `expand 32-byte k`. -/
def start (key : Key) (counter : UInt64) : Block where
  first := ⟨0x61707865, 0x3320646e, 0x79622d32, 0x6b206574⟩
  second := key.low
  third := key.high
  fourth := ⟨counter.toUInt32, (counter >>> 32).toUInt32, 0, 0⟩

/-- The block of a counter. -/
def block (key : Key) (counter : UInt64) : Block :=
  let s := start key counter
  (Nat.repeat Block.doubleRound doubleRounds s).zipWith (· + ·) s

/-- The `i`th word of the stream: of the eight pairs of words in its block, the pair at `i`, with
the low half first. -/
def word (key : Key) (i : Nat) : UInt64 :=
  let words := (block key (UInt64.ofNat (i / 8))).words
  let half (n : Nat) : UInt64 := ((words[n]?).getD 0).toUInt64
  half (2 * (i % 8)) ||| (half (2 * (i % 8) + 1) <<< 32)

end PersistentTier.KeyStream
