/-!
# Words of a line

White space is every character with the Unicode property `White_Space`. The words of a line are its
longest pieces without white space.

## Main definitions

* `Text.isBlank`
* `Text.words`
-/

namespace PersistentTier.Text

/-- The ranges of code points with the property `White_Space`. -/
def blankRanges : List (Nat × Nat) :=
  [(0x9, 0xd), (0x20, 0x20), (0x85, 0x85), (0xa0, 0xa0), (0x1680, 0x1680), (0x2000, 0x200a),
    (0x2028, 0x2029), (0x202f, 0x202f), (0x205f, 0x205f), (0x3000, 0x3000)]

/-- Whether a character is white space. -/
def isBlank (c : Char) : Bool :=
  blankRanges.any fun (low, high) => low ≤ c.toNat && c.toNat ≤ high

/-- Puts a finished word, which was collected backwards, before the words after it. -/
def finishWord (collected : List Char) (later : List String) : List String :=
  if collected.isEmpty then later else String.ofList collected.reverse :: later

/-- The words of a text, given the letters of a word that has begun, last letter first. -/
def wordsFrom : List Char → (collected : List Char) → List String
  | [], collected => finishWord collected []
  | c :: rest, collected =>
    if isBlank c then finishWord collected (wordsFrom rest [])
    else wordsFrom rest (c :: collected)

/-- The words of a line. -/
def words (line : String) : List String := wordsFrom line.toList []

example : words " set  k\tv " = ["set", "k", "v"] := by decide

end PersistentTier.Text
