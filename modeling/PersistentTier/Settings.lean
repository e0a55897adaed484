import PersistentTier.Eviction
import PersistentTier.Text.PathName

/-!
# Settings of a tier

## Main definitions

* `Settings`, `Settings.inDirectory`
* `Settings.validate`: the first reason to refuse settings
* `Settings.poolOptions`
-/

namespace PersistentTier

/-- The settings of a tier. -/
structure Settings where
  /-- The pool image. Without one the pool lives in memory. -/
  poolPath : Option String := none
  /-- The append-only file. Without one nothing is appended. -/
  filePath : Option String := none
  durability : Durability := .sync
  policy : PolicyKind := .lru
  /-- The size of the entry store above which entries are evicted. -/
  maxEntries : Option Nat := none
  /-- The number of entries evicted at least in one go. -/
  evictBatch : Nat := 16
  /-- The number of victims from which on they are flushed. -/
  victimThreshold : Nat := 64
  /-- Milliseconds between two drains of the log. -/
  flushInterval : Nat := 1000
  /-- Emulated nanoseconds per resolved handle. -/
  readLatency : Nat := 0
  /-- Emulated nanoseconds per allocation, free or undo record. -/
  writeLatency : Nat := 0
  /-- The seed of the random policy. -/
  seed : Option UInt64 := none
  deriving DecidableEq, Repr, Inhabited

namespace Settings

/-- Settings with the pool image and the append-only file side by side in a directory. -/
def inDirectory (directory : String) : Settings where
  poolPath := some (PathName.join directory "rustpmemkv.pool")
  filePath := some (PathName.join directory "rustpmemkv.aof")

/-- How the pool is opened. -/
def poolOptions (s : Settings) : PoolOptions where
  durability := s.durability
  readLatency := s.readLatency
  writeLatency := s.writeLatency

/-- Whether the image and the file are given by the same path. -/
def samePaths (s : Settings) : Bool :=
  match s.poolPath, s.filePath with
  | some pool, some file => PathName.same pool file
  | _, _ => false

/-- The first reason to refuse settings. -/
def validate (s : Settings) : Except SettingsFault Unit := do
  if s.evictBatch = 0 then throw .evictBatchZero
  if s.victimThreshold = 0 then throw .victimThresholdZero
  if s.maxEntries = some 0 then throw .maxEntriesZero
  if s.flushInterval = 0 then throw .flushIntervalZero
  if s.durability ≠ .none ∧ s.samePaths then throw .samePath

end Settings

end PersistentTier
