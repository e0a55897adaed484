import PersistentTier.Tier.Basic

/-!
# Eviction and flushing

Eviction moves entries to the victim pipeline; flushing writes the victims to the append-only file
and reclaims them. Both also happen on their own once the limits of the settings are passed.

## Main definitions

* `Tier.evictOne`, `evictBatch`, `flushVictims`
* `Tier.enforceLimits`
-/

namespace PersistentTier.Tier

/-- Moves the entry that the policy names to the victim pipeline. Returns its key. -/
def evictOne : TierM (Option Bytes) := do
  let t ← get
  let (choice, policy) := t.policy.selectVictim t.pool
  -- The pick is used up even if nothing comes of it.
  modify fun t => { t with policy := policy }
  match choice with
  | .error cause => throw (.cause cause)
  | .ok none => return none
  | .ok (some node) =>
    inTransaction (VictimPipeline.evict node)
    return some (← keyOf node)

/-- Moves at most `count` entries that the policy names to the victim pipeline, all or none.
Returns their number. -/
def evictBatch (count : Nat) : TierM Nat := do
  let t ← get
  match t.policy.selectVictims t.pool count with
  | .error cause => throw (.cause cause)
  | .ok [] => return 0
  | .ok nodes => inTransaction (VictimPipeline.evictAll nodes)

/-- A victim with its key and value. -/
def readVictim (node : Handle) : TierM (Handle × Bytes × Bytes) := do
  return (node, ← readPool (·.pair node))

/-- Writes every victim to the file, oldest eviction first, and reclaims the pipeline. Returns the
number of victims. -/
def flushVictims : TierM Nat := do
  let t ← get
  match t.pool.root.victimFirst with
  | none => return 0
  | some head =>
    let pending ← (t.pool.walk .victims .forward).mapM readVictim
    onFile do
      pending.reverse.forM fun (_, key, value) => AppendFile.append (.set key value)
      AppendFile.sync
    let flushed ← inTransaction (VictimPipeline.reclaim head)
    updateIndex fun index =>
      pending.foldl (fun index (node, key, _) => index.clearNode key node) index
    return flushed

/-- Evicts at least some of the `excess` entries that are too many, if the policy can. Returns the
number of entries evicted. -/
def evictSome (excess : Nat) : TierM Nat := do
  let t ← get
  if t.policy.supportsBatches then evictBatch (max excess t.settings.evictBatch)
  else do
    let key ← evictOne
    return if key.isSome then 1 else 0

/-- Evicts until the entry store is within its limit. Every round that evicts something lowers the
entry count, so there are no more rounds than entries. -/
def evictDownTo (limit : Nat) : (rounds : Nat) → TierM Unit
  | 0 => return
  | rounds + 1 => do
    let count := (← get).pool.root.entryCount.toNat
    if count ≤ limit then return
    else do
      let moved ← evictSome (count - limit)
      if moved = 0 then return else evictDownTo limit rounds

/-- Brings the entry store back within its limit, if it has one. -/
def enforceEntryLimit : TierM Unit := do
  let t ← get
  match t.settings.maxEntries with
  | some limit => evictDownTo limit t.pool.root.entryCount.toNat
  | none => return

/-- Flushes the victims once there are enough of them. -/
def enforceVictimLimit : TierM Unit := do
  let t ← get
  if t.settings.victimThreshold ≤ t.pool.root.victimCount.toNat then do
    let _ ← flushVictims
  else return

/-- Brings the entry store and the victim pipeline back within their limits. -/
def enforceLimits : TierM Unit := do
  enforceEntryLimit
  enforceVictimLimit

end PersistentTier.Tier
