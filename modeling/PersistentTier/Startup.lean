import PersistentTier.Index
import PersistentTier.LogBuffer
import PersistentTier.VictimPipeline

/-!
# Reconstruction at startup

Before a tier serves anything, the index is rebuilt from the pool, and what the last process left
pending is handed over to a replayer: first the victims, oldest eviction first, then the log, older
generation first. Only after the replayer has confirmed a sync is anything reclaimed. A chain that
contradicts its root ends the startup.

The replayer is arbitrary. It may fail at any call, and it has a state of its own.

## Main definitions

* `Replayer`: where pending work goes
* `Startup.reserve`, `Startup.makeRoom`: requests for memory
* `Startup.entries`, `Startup.log`, `Startup.everything`
-/

namespace PersistentTier

/-- Where pending work goes, with a state of type `ρ`. -/
structure Replayer (ρ : Type) where
  /-- Applies a logged command, which may change the index. -/
  replay : Bytes → EStateM Failure (Index × ρ) Unit
  /-- Stores a pair that is about to be reclaimed. -/
  persist : Bytes → Bytes → EStateM Failure ρ Unit
  /-- Makes everything handed over so far durable. -/
  sync : EStateM Failure ρ Unit

/-- What a startup has found. -/
structure StartupReport where
  entries : Nat := 0
  victims : Nat := 0
  replayed : Nat := 0
  deriving DecidableEq, Repr, Inhabited

/-- What a startup works on. -/
structure Startup (ρ : Type) where
  pool : Pool
  index : Index
  replayer : ρ

/-- A step of a startup. -/
abbrev StartupM (ρ : Type) := EStateM Failure (Startup ρ)

namespace Startup

variable {ρ α : Type}

/-- Asks for memory for `count` items of `size` bytes. -/
def reserve (count size : Nat) : StartupM ρ Unit :=
  if count * size < memoryBound then return else throw (.crash .outOfMemory)

theorem reserve_of_lt {count size : Nat} (h : count * size < memoryBound) :
    (reserve count size : StartupM ρ Unit) = pure () := if_pos h

/-- Asks for memory for all entries and victims that a root records. -/
def makeRoom (root : Root) : StartupM ρ Unit :=
  match checkedAdd root.entryCount root.victimCount with
  | .ok sum => reserve sum.toNat 72
  | .error crash => throw (.crash crash)

/-- There is room for numbers that fit into memory. -/
theorem makeRoom_of_lt {root : Root}
    (h : (root.entryCount.toNat + root.victimCount.toNat) * 72 < memoryBound) :
    (makeRoom root : StartupM ρ Unit) = pure () := by
  have hbound : memoryBound < UInt64.size := by decide
  have hlt : root.entryCount.toNat + root.victimCount.toNat < UInt64.size := by omega
  rw [makeRoom, checkedAdd_of_lt hlt]
  refine reserve_of_lt ?_
  rwa [UInt64.toNat_add, Nat.mod_eq_of_lt hlt]

/-- Looks at the pool. A contradiction in it is corruption. -/
def ofPool (look : Pool → Except Corruption α) : StartupM ρ α := fun s =>
  match look s.pool with
  | .ok a => .ok a s
  | .error corruption => .error (.cause (.corrupt corruption)) s

/-- An operation in a scope of its own. -/
def inTransaction (tx : Tx α) : StartupM ρ α := fun s =>
  match s.pool.transaction tx with
  | (.ok a, p) => .ok a { s with pool := p }
  | (.error failure, p) => .error failure { s with pool := p }

/-- A call of the replayer that does not concern the index. -/
def call (act : EStateM Failure ρ α) : StartupM ρ α := fun s =>
  match act.run s.replayer with
  | .ok a r => .ok a { s with replayer := r }
  | .error failure r => .error failure { s with replayer := r }

/-- Hands a logged command to the replayer. -/
def replay (replayer : Replayer ρ) (command : Bytes) : StartupM ρ Unit := fun s =>
  match (replayer.replay command).run (s.index, s.replayer) with
  | .ok () (index, r) => .ok () { s with index := index, replayer := r }
  | .error failure (index, r) => .error failure { s with index := index, replayer := r }

/-- Changes the index. -/
def updateIndex (change : Index → Index) : StartupM ρ Unit :=
  modify fun s => { s with index := change s.index }

/-- The nodes of a chain that is exactly what its root records. -/
def strictWalk (chain : ChainKind) : StartupM ρ (List Handle) := do
  reserve ((← get).pool.root.recordedLength chain).toNat 16
  ofPool (·.strictWalk chain)

/-- The key and the value of a node. -/
def pair (node : Handle) : StartupM ρ (Bytes × Bytes) :=
  ofPool fun p => (p.pair node).mapError .pairUnreadable

/-- Indexes one node of the entry store. -/
def indexEntry (node : Handle) : StartupM ρ Unit := do
  let (key, value) ← pair node
  updateIndex (·.insert key { value := value, node := some node })

/-- Indexes the entry store. Returns the number of entries. -/
def entries : StartupM ρ Nat := do
  let nodes ← strictWalk .entries
  reserve nodes.length 72
  nodes.forM indexEntry
  return nodes.length

/-- Replays both log buffers, the one out of service first, and clears them. Returns the number of
commands. -/
def log (replayer : Replayer ρ) : StartupM ρ Nat := do
  let older ← ofPool fun p => LogBuffer.pending p (LogBuffer.otherHead p)
  let newer ← ofPool fun p => LogBuffer.pending p (LogBuffer.currentHead p)
  (older ++ newer).forM (replay replayer)
  call replayer.sync
  inTransaction do
    let _ ← LogBuffer.clear (LogBuffer.currentHead (← get).pool)
    let _ ← LogBuffer.clear (LogBuffer.otherHead (← get).pool)
  return older.length + newer.length

/-- Indexes one victim. Returns its key and value. -/
def indexVictim (node : Handle) : StartupM ρ (Bytes × Bytes) := do
  let (key, value) ← pair node
  updateIndex (·.insert key { value := value })
  return (key, value)

/-- Hands the victims to the replayer and reclaims them. -/
def flushVictims (replayer : Replayer ρ) (pairs : List (Bytes × Bytes)) : StartupM ρ Unit := do
  match (← get).pool.root.victimFirst with
  | none => return
  | some head =>
    pairs.forM fun (key, value) => call (replayer.persist key value)
    -- Reclaiming comes last: after a crash before it the victims are handed over once more.
    call replayer.sync
    let _ ← inTransaction (VictimPipeline.reclaim head)

/-- The whole startup: victims, then the log, then the entry store. -/
def everything (replayer : Replayer ρ) : StartupM ρ StartupReport := do
  makeRoom (← get).pool.root
  let victims ← strictWalk .victims
  reserve victims.length 48
  -- Oldest eviction first, so that a later eviction of the same key wins.
  let pairs ← victims.reverse.mapM indexVictim
  -- Victims go before the log, so that a logged command on a victim's key stays the newer one.
  flushVictims replayer pairs
  let replayed ← log replayer
  let entries ← entries
  return { entries := entries, victims := pairs.length, replayed := replayed }

end Startup

end PersistentTier
