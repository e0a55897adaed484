import PersistentTier.Shell.Line
import PersistentTier.Text.Lossy
import PersistentTier.Tier.Commands

/-!
# Replies

A request is carried out on a tier and answered by lines of text. Keys and values are shown as text
as far as they are text.

## Main definitions

* `showCommand`
* `statusText`: a status as indented JSON
* `answer`: carry out a request
-/

namespace PersistentTier.Shell

/-- A command as shown to the user. -/
def showCommand : Command → String
  | .set key value => s!"SET {Text.lossy key} {Text.lossy value}"
  | .del key => s!"DEL {Text.lossy key}"

/-- A pair as shown to the user. -/
def showPair (pair : Bytes × Bytes) : String :=
  s!"{Text.lossy pair.1} => {Text.lossy pair.2}"

/-- A JSON object whose values are written already, indented by two spaces more than `indent`. -/
def objectText (indent : String) (fields : List (String × String)) : String :=
  let lines := fields.map fun (name, value) => s!"{indent}  \"{name}\": {value}"
  "\x7b\n" ++ ",\n".intercalate lines ++ s!"\n{indent}\x7d"

/-- A status as indented JSON. -/
def statusText (status : Tier.Status) : String :=
  objectText "" [
    ("indexed_keys", s!"{status.indexedKeys}"),
    ("entry_count", s!"{status.entryCount}"),
    ("victim_count", s!"{status.victimCount}"),
    ("log_count", s!"{status.logCount}"),
    ("current_buffer", s!"\"{status.currentBuffer.text}\""),
    ("eviction_policy", s!"\"{status.policy.text}\""),
    ("aof_records_since_rewrite", s!"{status.recordsSinceCompaction}"),
    ("pool", objectText "  " [
      ("live_objects", s!"{status.pool.liveObjects}"),
      ("entry_nodes", s!"{status.pool.entryNodes}"),
      ("log_nodes", s!"{status.pool.logNodes}"),
      ("payloads", s!"{status.pool.payloads}"),
      ("used_bytes", s!"{status.pool.usedBytes}"),
      ("free_slots", s!"{status.pool.freeSlots}")])]

/-- The lines shown for a list, which may have words for being empty. -/
def listing (empty : Option String) (lines : List String) : List String :=
  if lines.isEmpty then empty.toList else lines

/-- Carries out a request. Returns the lines of the reply. -/
def answer : Request → TierM (List String)
  | .set key value => do
    Tier.insert (Bytes.ofString key) (Bytes.ofString value)
    return ["OK"]
  | .get key => do
    match ← Tier.get? (Bytes.ofString key) with
    | some value => return [Text.lossy value]
    | none => return ["(nil)"]
  | .del key => do
    return [if ← Tier.erase (Bytes.ofString key) then "1" else "0"]
  | .append command => do
    let _ ← Tier.appendCommand command
    return ["OK"]
  | .switch => do
    return [s!"current buffer: {(← Tier.switchBuffers).text}"]
  | .clear => do
    let count ← Tier.clearCurrentBuffer
    return [s!"cleared {count} commands"]
  | .flushLog => do
    let count ← Tier.flushLog
    return [s!"flushed {count} commands"]
  | .evict => do
    match ← Tier.evictOne with
    | some key => return [s!"evicted {Text.lossy key}"]
    | none => return ["entry store is empty"]
  | .evictBatch count => do
    let moved ← Tier.evictBatch count
    return [s!"evicted {moved} entries"]
  | .flushVictims => do
    let count ← Tier.flushVictims
    return [s!"flushed {count} victims"]
  | .status => do
    return [statusText (← get).status]
  | .buffer role => do
    return listing (some "(empty)") ((← Tier.bufferCommands role).map showCommand)
  | .entries direction => do
    return listing none ((← Tier.entries direction).map showPair)
  | .victims => do
    return listing none ((← Tier.victimKeys).map Text.lossy)
  | .index => do
    return listing (some "(empty)") ((← get).index.pairs.map showPair)
  | .compact => do
    let count ← Tier.compact
    return [s!"AOF rewritten with {count} records"]

end PersistentTier.Shell
