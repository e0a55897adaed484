import PersistentTier.EntryStore

/-!
# The victim pipeline

Nodes evicted from the entry store wait here, the latest eviction first, until they have reached
the append-only file and are reclaimed. Eviction moves the node itself; no payload is copied.

## Main definitions

* `VictimPipeline.evict`, `evictAll`: evict one node, or several with one change of the counters
* `VictimPipeline.remove`: take one node out and free it
* `VictimPipeline.reclaim`: free a node and everything after it
-/

namespace PersistentTier.VictimPipeline

open Tx

/-- Moves a node from the entry store to the head of the pipeline. -/
def relink (node : Handle) : Tx Unit := do
  spliceOut .entries node
  linkFront .victims node

/-- Evicts one node. -/
def evict (node : Handle) : Tx Unit := do
  relink node
  decrement .entryCount 1
  increment .victimCount 1

/-- Evicts nodes in the order given, so that the last one ends up at the head. -/
def evictAll (nodes : List Handle) : Tx Nat := do
  nodes.forM relink
  decrement .entryCount (UInt64.ofNat nodes.length)
  increment .victimCount (UInt64.ofNat nodes.length)
  return nodes.length

/-- Takes one node out of the pipeline and frees it together with its key and value. -/
def remove (node : Handle) : Tx Unit := do
  spliceOut .victims node
  EntryStore.release node
  decrement .victimCount 1

/-- Frees one node with its key and value. Returns the node after it. -/
def reclaimNode (node : Handle) : Tx (Option Handle) := do
  let entry ← Tx.entry node
  require (entry.chain = .victims) (.corrupt (.victimMistagged node entry.chain))
  free entry.key
  free entry.value
  free node
  decrement .victimCount 1
  return entry.next

/-- Frees the nodes from `cursor` on and counts them. Each of them empties a slot, so `budget`
slots allow for `budget` nodes; after them no handle can be read. -/
def reclaimFrom : (budget : Nat) → (cursor : Option Handle) → (count : Nat) → Tx Nat
  | _, none, count => return count
  | 0, some h, _ => fail (.unreadable (.invalidHandle h))
  | budget + 1, some h, count => do
    let next ← reclaimNode h
    reclaimFrom budget next (count + 1)

@[simp] theorem reclaimFrom_none (budget count : Nat) :
    reclaimFrom budget none count = pure count := by
  cases budget <;> rfl

/-- Cuts the pipeline before a node. `predecessor` is what came before it. -/
def cutBefore (head : Handle) (predecessor : Option Handle) : Tx Unit := do
  if (← root).victimFirst = some head then
    editRoot fun r => { r with victimFirst := none }
  else
    match predecessor with
    | some prev => editEntry prev fun entry => { entry with next := none }
    | none => return

/-- Frees every node from `head` to the end of the pipeline and cuts the pipeline before it.
Returns the number of nodes. -/
def reclaim (head : Handle) : Tx Nat := do
  let predecessor := (← Tx.entry head).prev
  let count ← reclaimFrom (← get).pool.slots.size (some head) 0
  -- Nothing is left from the head on; what comes before it stays.
  cutBefore head predecessor
  return count

end PersistentTier.VictimPipeline
