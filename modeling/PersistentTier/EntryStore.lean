import PersistentTier.Chain.Splice

/-!
# The entry store

The entry store is the chain of live key/value nodes, the one touched most recently first.

## Main definitions

* `EntryStore.insertFront`, `updateValue`, `unlink`, `remove`, `promote`
-/

namespace PersistentTier.EntryStore

open Tx

/-- Links a new node for a key and a value as the head. -/
def insertFront (key value : Handle) : Tx Handle := do
  let node ← alloc (.entry { key := key, value := value })
  linkFront .entries node
  increment .entryCount 1
  return node

/-- Gives a node another value. Returns the handle of the old one. -/
def updateValue (node value : Handle) : Tx Handle := do
  record node
  let old ← Tx.entry node
  editEntry node fun entry => { entry with value := value }
  return old.value

/-- Takes a node out of the store. Nothing is freed. -/
def unlink (node : Handle) : Tx Unit := do
  spliceOut .entries node
  decrement .entryCount 1

/-- Frees a node that is in no chain, together with its key and value. -/
def release (node : Handle) : Tx Unit := do
  let entry ← Tx.entry node
  free entry.key
  free entry.value
  free node

/-- Takes a node out of the store and frees it together with its key and value. -/
def remove (node : Handle) : Tx Unit := do
  unlink node
  release node

/-- Makes a node the head of the store. -/
def promote (node : Handle) : Tx Unit := do
  if (← root).entryFirst = some node then return
  spliceOut .entries node
  linkFront .entries node

end PersistentTier.EntryStore
