import PersistentTier.Tier.Basic

/-!
# Draining the log

A drain takes a log generation out of service, writes it to the append-only file and then frees it.
Appends in between go to the other buffer and are not touched.

## Main definitions

* `Tier.appendCommand`, `switchBuffers`, `clearCurrentBuffer`
* `LogDrain`, `Tier.beginDrain`, `Tier.completeDrain`
* `Tier.flushLog`
-/

namespace PersistentTier

/-- A log generation out of service, on its way to the file. -/
structure LogDrain where
  head : Option Handle
  /-- The commands, oldest first. -/
  commands : List Bytes
  deriving DecidableEq, Repr, Inhabited

namespace Tier

/-- Logs a command without applying it. It takes effect when the file is loaded again. -/
def appendCommand (command : Command) : TierM Handle :=
  inTransaction (LogBuffer.append command.encode)

/-- Swaps the two buffers. Returns the one that is now current. -/
def switchBuffers : TierM Buffer := inTransaction LogBuffer.switch

/-- Frees every command of the current buffer. Returns their number. -/
def clearCurrentBuffer : TierM UInt64 := inTransaction do
  LogBuffer.clear (LogBuffer.currentHead (← get).pool)

/-- Takes the current log generation out of service, unless one is left over from an unfinished
drain. -/
def takeOut : TierM Unit := do
  if LogBuffer.otherHead (← get).pool = none then do
    let _ ← inTransaction LogBuffer.switch
  else return

/-- Takes a log generation out of service: the one left over from an unfinished drain if there is
one, else the current one. -/
def beginDrain : TierM LogDrain := do
  takeOut
  let p := (← get).pool
  let head := LogBuffer.otherHead p
  match LogBuffer.pending p head with
  | .ok commands => return { head, commands }
  | .error corruption => throw (.cause (.corrupt corruption))

/-- Writes commands that are already encoded to the file and syncs it. -/
def fileEncoded (commands : List Bytes) : FileOp Unit := do
  commands.forM AppendFile.appendEncoded
  AppendFile.sync

/-- Writes a generation to the file, syncs it and frees the generation. Returns the number of its
commands. -/
def completeDrain (drain : LogDrain) : TierM Nat := do
  if drain.head = LogBuffer.otherHead (← get).pool then do
    -- The generation is freed only after the file holds it.
    onFile (fileEncoded drain.commands)
    let _ ← inTransaction (LogBuffer.clear drain.head)
    return drain.commands.length
  else throw (.cause (.corrupt .drainOutdated))

/-- Drains one generation, unless nothing is logged. Returns the number of its commands. -/
def drainOnce : TierM Nat := do
  if (← get).pool.root.logCount = 0 then return 0
  else do completeDrain (← beginDrain)

/-- Moves everything logged so far into the file. At most one generation is left over from an
unfinished drain, so two rounds are enough. Returns the number of commands. -/
def flushLog : TierM Nat := do
  let leftOver ← drainOnce
  let current ← drainOnce
  return leftOver + current

end Tier

end PersistentTier
