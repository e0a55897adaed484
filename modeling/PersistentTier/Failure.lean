import PersistentTier.Object.Layout

/-!
# How operations fail

A failure is a cause, an aborted scope or a crash. Causes are the plain reasons an operation gives
up; inside a transaction scope every cause surfaces as an abort. A crash is not an answer: the
process stops, and no caller gets to handle it.

## Main definitions

* `Unreadable`: a handle that does not lead to the object asked for
* `Corruption`, `SettingsFault`, `CodecFault`, `IoFault`: causes of one kind each
* `Cause`, `Abort`, `Crash`, `Failure`
* `checkedAdd`: a sum that has to fit into 64 bits
* `Failure.toAborted`: a cause seen from outside the scope in which it arose
* `Failure.message`: the text of a failure
-/

namespace PersistentTier

/-- Why a handle cannot be read. -/
inductive Unreadable
  /-- The handle names no object of this pool. -/
  | invalidHandle (handle : Handle)
  /-- The object is of another kind than the one asked for. -/
  | typeMismatch (handle : Handle) (expected : ObjectKind)
  deriving DecidableEq, Repr

/-- The text of an unreadable handle. -/
def Unreadable.message : Unreadable → String
  | .invalidHandle h => s!"Invalid handle {h.text}"
  | .typeMismatch h expected => s!"Object {h.text} is not a {expected.text}"

/-- The counters of a root that are checked against zero. -/
inductive Counter
  | entryCount
  | victimCount
  | logCount
  deriving DecidableEq, Repr

/-- The name of a counter in messages. -/
def Counter.text : Counter → String
  | .entryCount => "entry_count"
  | .victimCount => "victim_count"
  | .logCount => "log_count"

/-- How a linked structure contradicts its root or itself. -/
inductive Corruption
  /-- A node to be taken out of `chain` belongs to `memberOf`. -/
  | wrongChain (node : Handle) (memberOf chain : ChainKind)
  /-- A node without predecessor is not the head of its chain. -/
  | notHead (node : Handle) (chain : ChainKind)
  /-- A node without successor is not the tail of its chain. -/
  | notTail (node : Handle) (chain : ChainKind)
  /-- A counter would drop below zero. -/
  | counterBelowZero (counter : Counter) (current amount : UInt64)
  /-- A chain goes on after its recorded number of nodes. -/
  | chainTooLong (chain : ChainKind) (recorded : UInt64)
  /-- A node of a chain cannot be read. -/
  | nodeUnreadable (chain : ChainKind) (node : Handle) (reason : Unreadable)
  /-- A node's back link is not the node it was reached from. -/
  | backLinkBroken (chain : ChainKind) (node : Handle)
  /-- A node of a chain carries the tag of the other one. -/
  | mistagged (node : Handle) (chain tag : ChainKind)
  /-- A chain ends before its recorded number of nodes. -/
  | chainTooShort (chain : ChainKind) (reachable : Nat) (recorded : UInt64)
  /-- A walk did not end at the recorded tail. -/
  | tailMismatch (chain : ChainKind)
  /-- A node of the victim pipeline about to be reclaimed carries another tag. -/
  | victimMistagged (node : Handle) (tag : ChainKind)
  /-- No head was given although neither log buffer is empty. -/
  | noEmptyBuffer
  /-- A log buffer goes on after the recorded number of commands. -/
  | logTooLong (recorded : UInt64)
  /-- A log node cannot be read. -/
  | logNodeUnreadable (node : Handle) (reason : Unreadable)
  /-- The command of a log node cannot be read. -/
  | commandUnreadable (node : Handle) (reason : Unreadable)
  /-- The key or the value of a node cannot be read. -/
  | pairUnreadable (reason : Unreadable)
  /-- The entry store ends before the node picked at random. -/
  | endsBeforePick (pick : Nat) (recorded : UInt64)
  /-- The log buffer being drained is no longer the one out of service. -/
  | drainOutdated
  /-- A report given as text. -/
  | reported (text : String)
  deriving DecidableEq, Repr

/-- The text of a corruption. -/
def Corruption.message : Corruption → String
  | .wrongChain node memberOf chain =>
    s!"node {node.text} belongs to the {memberOf.text}, not the {chain.text}"
  | .notHead node chain =>
    s!"node {node.text} has no predecessor but is not the head of the {chain.text}"
  | .notTail node chain =>
    s!"node {node.text} has no successor but is not the tail of the {chain.text}"
  | .counterBelowZero counter current amount =>
    s!"{counter.text} would drop below zero ({current} - {amount})"
  | .chainTooLong chain recorded =>
    s!"{chain.text} holds more than its recorded {recorded} nodes"
  | .nodeUnreadable chain node reason =>
    s!"{chain.text} node {node.text} unreadable: {reason.message}"
  | .backLinkBroken chain node =>
    s!"{chain.text} node {node.text} back-link does not match its predecessor"
  | .mistagged node chain tag =>
    s!"node {node.text} reached from the {chain.text} is tagged {tag.text}"
  | .chainTooShort chain reachable recorded =>
    s!"{chain.text} has {reachable} reachable nodes but records {recorded}"
  | .tailMismatch chain => s!"{chain.text} walk did not end at the recorded tail"
  | .victimMistagged node tag =>
    s!"node {node.text} in the victim pipeline is tagged {tag.text}"
  | .noEmptyBuffer => "null log head matches no buffer"
  | .logTooLong recorded => s!"log chain is longer than the recorded {recorded} commands"
  | .logNodeUnreadable node reason => s!"log node {node.text}: {reason.message}"
  | .commandUnreadable node reason => s!"log payload {node.text}: {reason.message}"
  | .pairUnreadable reason => reason.message
  | .endsBeforePick pick recorded => s!"entry store ends before index {pick} of {recorded}"
  | .drainOutdated => "log generation changed while it was being drained"
  | .reported text => text

/-- Why settings are refused. -/
inductive SettingsFault
  | evictBatchZero
  | victimThresholdZero
  | maxEntriesZero
  | flushIntervalZero
  | samePath
  /-- A report given as text. -/
  | reported (text : String)
  deriving DecidableEq, Repr

/-- The text of refused settings. -/
def SettingsFault.message : SettingsFault → String
  | .evictBatchZero => "evict_batch_size must be > 0"
  | .victimThresholdZero => "victim_flush_threshold must be > 0"
  | .maxEntriesZero => "max_entries must be > 0 when set"
  | .flushIntervalZero => "log_flush_interval must be > 0"
  | .samePath => "pool_path and aof_path must differ"
  | .reported text => text

/-- Why an eviction policy refuses a request. -/
inductive PolicyFault
  /-- Random picks are made one at a time, never as a batch. -/
  | randomBatch (size : Nat)
  /-- A report given as text. -/
  | reported (text : String)
  deriving DecidableEq, Repr

/-- The text of a refused request to a policy. -/
def PolicyFault.message : PolicyFault → String
  | .randomBatch size =>
    s!"random policy cannot select a batch of {size} victims; evict one at a time"
  | .reported text => text

/-- The version of the image format that is written and read. -/
def formatVersion : Nat := 1

/-- Why stored bytes cannot be decoded. -/
inductive CodecFault
  /-- The bytes are not the encoding of a value of the type asked for. -/
  | malformed
  /-- The pool image is of another format version. -/
  | unsupportedVersion (version : Nat)
  /-- A report given as text. -/
  | reported (text : String)
  deriving DecidableEq, Repr

/-- The text of undecodable bytes. -/
def CodecFault.message : CodecFault → String
  | .malformed => "malformed MessagePack value"
  | .unsupportedVersion version =>
    s!"Unsupported pool format version {version} (expected {formatVersion})"
  | .reported text => text

/-- The steps of file access that can fail, each in its own words. -/
inductive FileStep
  | createPoolDirectory
  | createTempImage
  | writeImage
  | syncImage
  | installImage
  | openImage
  | readImage
  | createLogDirectory
  | openLog
  | writeLog
  | flushLog
  | syncLog
  | openLogForReading
  | readRecordLength
  | readRecord
  | createTempLog
  | writeTempLog
  | flushTempLog
  | syncTempLog
  | installLog
  | reopenLog
  deriving DecidableEq, Repr

/-- What failed, said of a step of file access. -/
def FileStep.failureText : FileStep → String
  | .createPoolDirectory => "Failed to create pool directory"
  | .createTempImage => "Failed to create temp image"
  | .writeImage => "Failed to write pool image"
  | .syncImage => "Failed to sync pool image"
  | .installImage => "Failed to install pool image"
  | .openImage => "Failed to open pool image"
  | .readImage => "Failed to read pool image"
  | .createLogDirectory => "Failed to create AOF directory"
  | .openLog => "Failed to open AOF"
  | .writeLog => "Failed to write AOF"
  | .flushLog => "Failed to flush AOF"
  | .syncLog => "Failed to sync AOF"
  | .openLogForReading => "Failed to open AOF for reading"
  | .readRecordLength => "Failed to read AOF record length"
  | .readRecord => "Failed to read AOF record"
  | .createTempLog => "Failed to create temp AOF"
  | .writeTempLog => "Failed to write temp AOF"
  | .flushTempLog => "Failed to flush temp AOF"
  | .syncTempLog => "Failed to sync temp AOF"
  | .installLog => "Failed to install rewritten AOF"
  | .reopenLog => "Failed to reopen AOF"

/-- What the operating system says of a failed step. -/
inductive SystemFault
  | isDirectory
  | inputOutput
  deriving DecidableEq, Repr

/-- The operating system's words. -/
def SystemFault.message : SystemFault → String
  | .isDirectory => "Is a directory (os error 21)"
  | .inputOutput => "Input/output error (os error 5)"

/-- Why a file cannot be used. -/
inductive IoFault
  | failed (step : FileStep) (reason : SystemFault)
  /-- A report given as text. -/
  | reported (text : String)
  deriving DecidableEq, Repr

/-- The text of a failed file access. -/
def IoFault.message : IoFault → String
  | .failed step reason => s!"{step.failureText}: {reason.message}"
  | .reported text => text

/-- The plain reasons for which an operation gives up. -/
inductive Cause
  | corrupt (corruption : Corruption)
  | policyUnsupported (fault : PolicyFault)
  | unreadable (reason : Unreadable)
  /-- A write to an object of which the scope holds no undo record. -/
  | unloggedWrite (handle : Handle)
  /-- A log buffer was named by a handle that is the head of neither. -/
  | notABufferHead (handle : Handle)
  | settings (fault : SettingsFault)
  | codec (fault : CodecFault)
  | io (fault : IoFault)
  deriving DecidableEq, Repr

/-- The text of a cause. -/
def Cause.message : Cause → String
  | .corrupt corruption => s!"Corrupt chain: {corruption.message}"
  | .policyUnsupported fault => s!"Unsupported eviction policy: {fault.message}"
  | .unreadable reason => reason.message
  | .unloggedWrite h => s!"Write to {h.text} without an undo record"
  | .notABufferHead h => s!"Handle {h.text} is not the head of either log buffer"
  | .settings fault => s!"Configuration error: {fault.message}"
  | .codec fault => s!"Codec error: {fault.message}"
  | .io fault => s!"I/O error: {fault.message}"

/-- Why a scope was rolled back. -/
inductive Abort
  /-- The write budget of the pool ran out. -/
  | injectedFault
  /-- An operation of the scope failed. -/
  | failed (cause : Cause)
  /-- The image could not be written at commit. The scope's number is not kept. -/
  | notDurable (cause : Cause)
  /-- A report given as text. -/
  | reported (text : String)
  deriving DecidableEq, Repr

/-- The text of an abort. -/
def Abort.message : Abort → String
  | .injectedFault => "injected pool write fault"
  | .failed cause => cause.message
  | .notDurable cause => s!"pool-tx#N could not be made durable: {cause.message}"
  | .reported text => text

/-- Why the process stops without an answer. -/
inductive Crash
  /-- The free list names an offset outside the arena. -/
  | freeListOutOfRange (offset : UInt64)
  /-- More memory was asked for than an address space holds. -/
  | outOfMemory
  /-- Two numbers were added whose sum does not fit into 64 bits. -/
  | overflow (a b : UInt64)
  deriving DecidableEq, Repr

/-- The text of a crash. -/
def Crash.message : Crash → String
  | .freeListOutOfRange offset => s!"free slot {offset} is out of range"
  | .outOfMemory => "out of memory"
  | .overflow _ _ => "attempt to add with overflow"

/-- The sum of two numbers, which has to fit into 64 bits. -/
def checkedAdd (a b : UInt64) : Except Crash UInt64 :=
  if a.toNat + b.toNat < UInt64.size then .ok (a + b) else .error (.overflow a b)

theorem checkedAdd_of_lt {a b : UInt64} (h : a.toNat + b.toNat < UInt64.size) :
    checkedAdd a b = .ok (a + b) := if_pos h

theorem checkedAdd_of_le {a b : UInt64} (h : UInt64.size ≤ a.toNat + b.toNat) :
    checkedAdd a b = .error (.overflow a b) := if_neg (Nat.not_lt.2 h)

/-- Numbers are too large to be added, if they cannot be. -/
theorem le_of_checkedAdd {a b : UInt64} {crash : Crash} (h : checkedAdd a b = .error crash) :
    crash = .overflow a b ∧ UInt64.size ≤ a.toNat + b.toNat := by
  unfold checkedAdd at h
  split at h
  · cases h
  · rename_i hlarge
    exact ⟨(Except.error.inj h).symm, Nat.not_lt.1 hlarge⟩

/-- How an operation ends without a result. -/
inductive Failure
  | cause (cause : Cause)
  | aborted (abort : Abort)
  | crash (crash : Crash)
  deriving DecidableEq, Repr

namespace Failure

/-- A failure as seen from outside the scope in which it arose: a cause becomes an abort. -/
def toAborted : Failure → Failure
  | .cause c => .aborted (.failed c)
  | .aborted a => .aborted a
  | .crash c => .crash c

/-- Whether a failure is an abort. -/
def isAborted : Failure → Bool
  | .aborted _ => true
  | _ => false

/-- The text of a failure. -/
def message : Failure → String
  | .cause c => c.message
  | .aborted a => s!"Transaction aborted: {a.message}"
  | .crash c => c.message

/-- Re-surfacing twice is re-surfacing once. -/
@[simp] theorem toAborted_toAborted (f : Failure) : f.toAborted.toAborted = f.toAborted := by
  cases f <;> rfl

end Failure

end PersistentTier
