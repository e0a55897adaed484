import PersistentTier.AppendFile
import PersistentTier.Settings
import PersistentTier.Startup

/-!
# The tier

A tier is a pool, the index of its keys, the append-only file and an eviction policy. Opening one
loads the file into the index, hands what the last process left pending to the file, and indexes
the entry store.

## Main definitions

* `Volume`: the two places on disk that a tier may use
* `Tier`, `TierM`
* `Tier.inTransaction`, `Tier.onFile`: operations on the parts of a tier
* `Index.apply`, `fileReplayer`
* `Tier.open`, `Tier.close`
* `Tier.status`
-/

namespace PersistentTier

/-- The two places on disk that a tier may use. -/
structure Volume where
  image : Location := {}
  file : Location := {}
  deriving DecidableEq, Repr, Inhabited

/-- The persistent-memory tier of a key-value store. -/
structure Tier where
  settings : Settings
  pool : Pool
  index : Index
  file : AppendFile
  policy : Policy
  /-- What the startup found. -/
  report : StartupReport
  deriving Inhabited

/-- An operation on a tier. A failed one leaves the tier as far as it got. -/
abbrev TierM := EStateM Failure Tier

/-- The effect of a command on keys that are not resident in the pool. -/
def Index.apply (index : Index) : Command → Index
  | .set key value => index.insert key { value := value }
  | .del key => index.erase key

/-- The outcome of an operation whose failures are causes, in a place where any failure may
arise. -/
def liftFailure {α σ : Type} (act : EStateM Cause σ α) : EStateM Failure σ α := fun s =>
  match act.run s with
  | .ok a s => .ok a s
  | .error cause s => .error (.cause cause) s

/-- Hands pending work to the append-only file. A replayed command also changes the index. -/
def fileReplayer : Replayer AppendFile where
  replay encoded := fun (index, file) =>
    match Command.decode encoded with
    | .error cause => .error (.cause cause) (index, file)
    | .ok command =>
      match (liftFailure (AppendFile.appendEncoded encoded)).run file with
      | .ok () file => .ok () (index.apply command, file)
      | .error failure file => .error failure (index.apply command, file)
  persist key value := liftFailure (AppendFile.append (.set key value))
  sync := liftFailure AppendFile.sync

namespace Tier

variable {α : Type}

/-! ## The parts of a tier -/

/-- An operation in a pool scope of its own. -/
def inTransaction (tx : Tx α) : TierM α := fun t =>
  match t.pool.transaction tx with
  | (.ok a, p) => .ok a { t with pool := p }
  | (.error failure, p) => .error failure { t with pool := p }

/-- An operation on the append-only file. -/
def onFile (act : FileOp α) : TierM α := fun t =>
  match act.run t.file with
  | .ok a f => .ok a { t with file := f }
  | .error cause f => .error (.cause cause) { t with file := f }

/-- Reads from the pool. -/
def readPool (look : Pool → Except Unreadable α) : TierM α := fun t =>
  match look t.pool with
  | .ok a => .ok a t
  | .error reason => .error (.cause (.unreadable reason)) t

/-- Changes the index. -/
def updateIndex (change : Index → Index) : TierM Unit :=
  modify fun t => { t with index := change t.index }

/-! ## Opening and closing -/

/-- The parts of a tier back in their places. -/
def release (volume : Volume) (pool : Option Pool) (file : Option AppendFile) : Volume where
  image := (pool.bind Pool.close).getD volume.image
  file := (file.bind AppendFile.close).getD volume.file

/-- Opens the pool of the given settings. -/
def openPool (settings : Settings) (volume : Volume) (fresh : UInt64) : Except Failure Pool :=
  match settings.poolPath with
  | some _ => Pool.open volume.image settings.poolOptions fresh
  | none => .ok (Pool.empty fresh settings.poolOptions)

/-- Opens the append-only file of the given settings. -/
def openFile (settings : Settings) (volume : Volume) : Except Failure AppendFile :=
  match settings.filePath with
  | some _ => (AppendFile.open volume.file settings.durability).mapError .cause
  | none => .ok AppendFile.disabled

/-- Opens a tier on a volume, with a pool id and a seed to be used if the settings leave them open.
If that fails the volume is as far as the startup got. -/
def «open» (settings : Settings) (volume : Volume) (fresh seed : UInt64) :
    Except Failure Tier × Volume :=
  match settings.validate with
  | .error fault => (.error (.cause (.settings fault)), volume)
  | .ok () =>
  match openPool settings volume fresh with
  | .error failure => (.error failure, volume)
  | .ok pool =>
  match openFile settings volume with
  | .error failure => (.error failure, release volume (some pool) none)
  | .ok file =>
  -- The file is older than anything in the pool, so it goes into the index first.
  match file.readAll with
  | .error cause => (.error (.cause cause), release volume (some pool) (some file))
  | .ok loaded =>
  let index := loaded.foldl Index.apply Index.empty
  match (Startup.everything fileReplayer).run { pool, index, replayer := file } with
  | .error failure s => (.error failure, release volume (some s.pool) (some s.replayer))
  | .ok report s =>
    (.ok {
      settings := settings
      pool := s.pool
      index := s.index
      file := s.replayer
      policy := .ofKind settings.policy (settings.seed.getD seed)
      report := report }, volume)

/-- Closes a tier that was opened on a volume. -/
def close (t : Tier) (volume : Volume) : Volume := release volume (some t.pool) (some t.file)

/-! ## Inspection -/

/-- A summary of a tier. -/
structure Status where
  indexedKeys : Nat
  entryCount : UInt64
  victimCount : UInt64
  logCount : UInt64
  currentBuffer : Buffer
  policy : PolicyKind
  recordsSinceCompaction : Nat
  pool : Pool.Stats
  deriving DecidableEq, Repr

/-- Summarises a tier. -/
def status (t : Tier) : Status where
  indexedKeys := t.index.size
  entryCount := t.pool.root.entryCount
  victimCount := t.pool.root.victimCount
  logCount := t.pool.root.logCount
  currentBuffer := t.pool.root.activeBuffer
  policy := t.policy.kind
  recordsSinceCompaction := t.file.recordsSinceCompaction
  pool := t.pool.stats

/-- The entry store in the order of its chain. -/
def entries (direction : Direction) : TierM (List (Bytes × Bytes)) := do
  let nodes := (← get).pool.walk .entries direction
  nodes.mapM fun node => readPool (·.pair node)

/-- The key of a node. -/
def keyOf (node : Handle) : TierM Bytes := readPool fun p => do p.bytes (← p.entry node).key

/-- The keys of the victim pipeline, latest eviction first. -/
def victimKeys : TierM (List Bytes) := do
  ((← get).pool.walk .victims .forward).mapM keyOf

/-- The commands of a log buffer, newest first. -/
def bufferCommands (role : BufferRole) : TierM (List Command) := do
  let p := (← get).pool
  match (LogBuffer.payloads p (LogBuffer.head p role)).mapM Command.decode with
  | .ok commands => return commands
  | .error cause => throw (.cause cause)

end Tier

end PersistentTier
