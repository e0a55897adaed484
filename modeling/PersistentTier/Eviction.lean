import PersistentTier.EntryStore
import PersistentTier.Random.Picks

/-!
# Choosing victims

A policy names the nodes to evict next. The recency policy takes the tail of the entry store, which
is the node touched longest ago. The random policy takes a position from a source of picks; it
works for every source.

## Main definitions

* `PolicyKind`, `PolicyKind.ofText`
* `Policy`, `Policy.selectVictim`, `Policy.selectVictims`
-/

namespace PersistentTier

/-- The two policies. -/
inductive PolicyKind
  /-- Least recently used. -/
  | lru
  | random
  deriving DecidableEq, Repr, Inhabited

namespace PolicyKind

/-- The name of a policy. -/
def text : PolicyKind → String
  | .lru => "lru"
  | .random => "random"

/-- The policy of a given name, or a complaint. ASCII letters may be in either case. -/
def ofText (s : String) : Except String PolicyKind :=
  match s.map Char.toLower with
  | "lru" | "allkeys-lru" => .ok .lru
  | "random" | "allkeys-random" => .ok .random
  | other => .error s!"unknown eviction policy '{other}'"

end PolicyKind

/-- A policy with what it needs to choose. -/
inductive Policy
  | lru
  | random (picks : Picks)
  deriving Inhabited

namespace Policy

/-- The policy of a kind. The seed matters to the random policy only. -/
def ofKind (kind : PolicyKind) (seed : UInt64) : Policy :=
  match kind with
  | .lru => .lru
  | .random => .random (.ofSeed seed)

/-- The kind of a policy. -/
def kind : Policy → PolicyKind
  | .lru => .lru
  | .random _ => .random

/-- Whether reading or writing a key makes its node the head of the store. -/
def tracksRecency : Policy → Bool
  | .lru => true
  | .random _ => false

/-- Whether several victims can be chosen at once. -/
def supportsBatches : Policy → Bool
  | .lru => true
  | .random _ => false

/-- The node `steps` positions after `cursor`, for the pick `pick` of `recorded`. -/
def stepForward (p : Pool) (pick : Nat) (recorded : UInt64) : (steps : Nat) →
    (cursor : Option Handle) → Except Cause Handle
  | _, none => .error (.corrupt (.endsBeforePick pick recorded))
  | 0, some h => .ok h
  | steps + 1, some h =>
    match p.entry h with
    | .ok node => stepForward p pick recorded steps node.next
    | .error reason => .error (.unreadable reason)

/-- The next node to evict, if there is one, and the policy afterwards. -/
def selectVictim (policy : Policy) (p : Pool) : Except Cause (Option Handle) × Policy :=
  match policy with
  | .lru => (.ok p.root.entryLast, .lru)
  | .random picks =>
    if p.root.entryCount = 0 then (.ok none, .random picks)
    else
      let (pick, picks) := picks.next p.root.entryCount
      let victim := stepForward p pick p.root.entryCount pick p.root.entryFirst
      (victim.map some, .random picks)

/-- At most `k` nodes to evict, in the order of their eviction. -/
def selectVictims (policy : Policy) (p : Pool) (k : Nat) : Except Cause (List Handle) :=
  match policy with
  | .lru => .ok ((p.walk .entries .backward).take k)
  | .random _ => .error (.policyUnsupported (.randomBatch k))

end Policy

end PersistentTier
