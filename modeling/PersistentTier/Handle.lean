/-!
# Handles

A handle names an object by the pool that owns it and the object's offset there. Offsets start at
one: the object in slot `i` of a pool has offset `i + 1`, and offset zero names nothing.

## Main definitions

* `Handle`: pool id and offset, ordered by pool first
* `Handle.text`: sixteen hexadecimal digits of the pool, a colon, the offset in decimal
-/

namespace PersistentTier

/-- A stable reference to an object of a pool. It carries no address. -/
structure Handle where
  /-- The id of the owning pool. -/
  pool : UInt64
  /-- One more than the index of the object's slot. -/
  offset : UInt64
  deriving DecidableEq, Repr, Inhabited

namespace Handle

/-- Handles of one pool are ordered by offset, handles of two pools by pool. -/
def precedes (a b : Handle) : Bool :=
  decide (a.pool < b.pool) || (a.pool == b.pool && decide (a.offset < b.offset))

/-- The sixteen hexadecimal digits of a word. -/
def hexWord (w : UInt64) : String :=
  let digits := Nat.toDigits 16 w.toNat
  String.ofList (List.replicate (16 - digits.length) '0' ++ digits)

/-- The written form of a handle. -/
def text (h : Handle) : String := s!"{hexWord h.pool}:{h.offset}"

end Handle

end PersistentTier
