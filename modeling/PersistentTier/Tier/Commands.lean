import PersistentTier.Tier.Eviction
import PersistentTier.Tier.Log

/-!
# The commands of a tier

Every write is logged to the current log buffer and applied to the entry store in the same scope,
so the two never disagree after a crash.

## Main definitions

* `Tier.insert`, `Tier.get?`, `Tier.erase`
* `Tier.compact`, `Tier.checkpoint`
-/

namespace PersistentTier.Tier

/-- The node of a key that is resident in the pool, with the chain it is in. -/
def resident? (key : Bytes) : TierM (Option (Handle × ChainKind)) := do
  match ((← get).index.get? key).bind IndexEntry.node with
  | none => return none
  | some node => return some (node, (← readPool (·.entry node)).chain)

/-- Stores a new pair at the head of the entry store. -/
def insertNew (key value : Bytes) : Tx Handle := do
  let key ← Tx.allocBytes key
  let value ← Tx.allocBytes value
  EntryStore.insertFront key value

/-- Gives a node of the entry store another value, and makes it the head if `promote` says so. -/
def updateEntry (node : Handle) (value : Bytes) (promote : Bool) : Tx Handle := do
  let value ← Tx.allocBytes value
  let old ← EntryStore.updateValue node value
  Tx.free old
  if promote then EntryStore.promote node
  return node

/-- What a write to a key does to the pool, given the key's node and the chain it is in. Returns the
node that holds the value afterwards. -/
def write (key value : Bytes) (resident : Option (Handle × ChainKind)) (promote : Bool) :
    Tx Handle := do
  let _ ← LogBuffer.append (Command.set key value).encode
  match resident with
  | some (node, .entries) => updateEntry node value promote
  | some (node, .victims) =>
    VictimPipeline.remove node
    insertNew key value
  | none => insertNew key value

/-- What removing a key does to the pool, given the key's node and the chain it is in. -/
def drop (key : Bytes) (resident : Option (Handle × ChainKind)) : Tx Unit := do
  let _ ← LogBuffer.append (Command.del key).encode
  match resident with
  | some (node, .entries) => EntryStore.remove node
  | some (node, .victims) => VictimPipeline.remove node
  | none => return

/-- Carries on after a failure. A crash cannot be survived. -/
def tolerate (act : TierM Unit) : TierM Unit := fun t =>
  match act.run t with
  | .error (.crash crash) t => .error (.crash crash) t
  | .error _ t => .ok () t
  | .ok () t => .ok () t

/-- Stores a value under a key. A node of the entry store is updated in place. A node that waits in
the victim pipeline is dropped and the key enters the entry store anew. A failure means that
nothing was written; a failure to evict afterwards is made up for by a later write. -/
def insert (key value : Bytes) : TierM Unit := do
  let resident ← resident? key
  let promote := (← get).policy.tracksRecency
  let node ← inTransaction (write key value resident promote)
  updateIndex (·.insert key { value := value, node := some node })
  -- The write is committed, and no failure to evict takes it back.
  tolerate enforceLimits

/-- Under the recency policy, makes the node of a key the head of the entry store. -/
def touch (key : Bytes) : TierM Unit := do
  let t ← get
  if t.policy.tracksRecency then do
    match ← resident? key with
    | some (node, .entries) =>
      if t.pool.root.entryFirst = some node then return
      else inTransaction (EntryStore.promote node)
    | _ => return
  else return

/-- The value of a key. Under the recency policy the key's node becomes the head of the entry
store. -/
def get? (key : Bytes) : TierM (Option Bytes) := do
  match (← get).index.get? key with
  | none => return none
  | some entry =>
    touch key
    return some entry.value

/-- Removes a key. Returns whether it was there. -/
def erase (key : Bytes) : TierM Bool := do
  match (← get).index.get? key with
  | none => return false
  | some _ =>
    let resident ← resident? key
    inTransaction (drop key resident)
    updateIndex (·.erase key)
    return true

/-- Replaces the file by one `set` per key. The log is drained first, so that nothing older is
replayed on top of them. Returns the number of keys. -/
def compact : TierM Nat := do
  let _ ← flushLog
  let pairs := (← get).index.pairs
  onFile (AppendFile.compactTo (pairs.map fun (key, value) => .set key value))

/-- Makes the file and the pool image durable. -/
def checkpoint : TierM Unit := do
  onFile AppendFile.sync
  let t ← get
  match t.pool.checkpoint with
  | .ok p => set { t with pool := p }
  | .error cause => throw (.cause cause)

end PersistentTier.Tier
