import PersistentTier.Pool.Image

/-!
# Transaction scopes

A scope holds a pool and the undo records of everything the scope has changed in it, newest first.
An object is recorded before its first change, and it counts as recorded from then on until it is
freed; an object allocated in the scope needs no record of its contents. What the scope has freed
stays out of the free list until the scope commits.

## Main definitions

* `UndoRecord`, `Scope`
* `Tx`: operations inside a scope; a failed operation leaves the scope as far as it got
* `Tx.charge`, `Tx.record`, `Tx.overwrite`, `Tx.editEntry`, `Tx.editLog`, `Tx.editRoot`,
  `Tx.alloc`, `Tx.free`: the primitive operations
* `Scope.rollback`, `Scope.commit`, `Scope.finish`: how a scope ends
* `Pool.transaction`: an operation in a scope of its own
-/

namespace PersistentTier

/-- What a scope remembers of a change. -/
inductive UndoRecord
  /-- The root before its first change. -/
  | root (before : Root)
  /-- An object before its first change. -/
  | object (handle : Handle) (before : Object)
  /-- An object allocated in the scope. -/
  | allocated (handle : Handle)
  /-- An object freed in the scope. -/
  | freed (handle : Handle) (before : Object)
  deriving DecidableEq, Repr

/-- A pool under change. -/
structure Scope where
  pool : Pool
  /-- The undo records, newest first. -/
  undo : List UndoRecord := []
  deriving DecidableEq, Repr

/-- An operation inside a scope. -/
abbrev Tx := EStateM Failure Scope

namespace UndoRecord

/-- Whether the record says of `h` that it may be changed, if it says anything of `h`. -/
def permits? (h : Handle) : UndoRecord → Option Bool
  | .root _ => none
  | .object h' _ => if h' = h then some true else none
  | .allocated h' => if h' = h then some true else none
  | .freed h' _ => if h' = h then some false else none

/-- Whether the record is of the root. -/
def isRoot : UndoRecord → Bool
  | .root _ => true
  | _ => false

/-- The offset of a freed object. -/
def freedOffset? : UndoRecord → Option UInt64
  | .freed h _ => some h.offset
  | _ => none

/-- Takes one change back. -/
def revert (p : Pool) : UndoRecord → Pool
  | .root before => { p with root := before }
  | .object h before => p.setObject h before
  | .allocated h => p.discard h
  | .freed h before => p.setObject h before

end UndoRecord

namespace Scope

/-- Whether an object may be changed without a further record. -/
def isRecorded (s : Scope) (h : Handle) : Bool :=
  (s.undo.findSome? (UndoRecord.permits? h)).getD false

/-- Whether the root may be changed without a further record. -/
def rootRecorded (s : Scope) : Bool := s.undo.any UndoRecord.isRoot

/-- The offsets freed in the scope, newest first. -/
def freedOffsets (s : Scope) : List UInt64 := s.undo.filterMap UndoRecord.freedOffset?

/-- The pool as it was when the scope began, but for the order of the free list. -/
def rollback (s : Scope) : Pool := s.undo.foldl UndoRecord.revert s.pool

/-- Makes the changes of a scope durable. If that fails the scope is rolled back. -/
def commit (s : Scope) : Except Failure Unit × Pool :=
  -- What the scope has freed becomes reusable with the commit, the latest first.
  let released := s.pool.release s.freedOffsets
  match released.makeDurable with
  | .ok p => (.ok (), p)
  | .error cause =>
    (.error (.aborted (.notDurable cause)),
      { s with pool := released.unrelease s.freedOffsets.length }.rollback)

/-- Ends a scope as the outcome of its operations demands: it commits if they succeeded and rolls
back if they failed. -/
def finish {α : Type} (s : Scope) : Except Failure α → Except Failure α × Pool
  | .ok a =>
    match s.commit with
    | (.ok (), p) => (.ok a, p)
    | (.error failure, p) => (.error failure, p)
  | .error failure => (.error failure.toAborted, s.rollback)

end Scope

namespace Tx

/-- Gives up. -/
def fail {α : Type} (cause : Cause) : Tx α := throw (.cause cause)

/-- Gives up unless a condition holds. -/
def require (c : Prop) [Decidable c] (cause : Cause) : Tx Unit :=
  if c then pure () else fail cause

/-- Reads from the pool. -/
def ofRead {α : Type} (look : Pool → Except Unreadable α) : Tx α := fun s =>
  match look s.pool with
  | .ok a => .ok a s
  | .error reason => .error (.cause (.unreadable reason)) s

/-- The key/value node that a handle names. -/
def entry (h : Handle) : Tx EntryNode := ofRead (·.entry h)

/-- The log node that a handle names. -/
def logNode (h : Handle) : Tx LogNode := ofRead (·.logNode h)

/-- The root. -/
def root : Tx Root := fun s => .ok s.pool.root s

/-- Pays for one write. -/
def charge : Tx Unit := fun s =>
  match s.pool.writeBudget with
  | none => .ok () s
  | some 0 =>
    .error (.aborted .injectedFault) { s with pool := { s.pool with writeBudget := none } }
  | some (n + 1) => .ok () { s with pool := { s.pool with writeBudget := some n } }

/-- Remembers an object before its first change. A second record of it is not needed. -/
def record (h : Handle) : Tx Unit := do
  if (← get).isRecorded h then return
  -- The write is paid for before the handle is looked at.
  charge
  let before ← ofRead (·.resolve h)
  modify fun s => { s with undo := .object h before :: s.undo }

/-- Replaces a recorded object. Returns the one that was replaced. -/
def overwrite (h : Handle) (change : Object → Except Cause Object) : Tx Object := do
  let s ← get
  unless s.isRecorded h do fail (.unloggedWrite h)
  let before ← ofRead (·.resolve h)
  match change before with
  | .error cause => fail cause
  | .ok after => set { s with pool := s.pool.setObject h after }
  return before

/-- Changes a key/value node. -/
def editEntry (h : Handle) (edit : EntryNode → EntryNode) : Tx Unit := do
  record h
  let _ ← overwrite h fun
    | .entry node => .ok (.entry (edit node))
    | _ => .error (.unreadable (.typeMismatch h .entryNode))

/-- Changes a log node. -/
def editLog (h : Handle) (edit : LogNode → LogNode) : Tx Unit := do
  record h
  let _ ← overwrite h fun
    | .log node => .ok (.log (edit node))
    | _ => .error (.unreadable (.typeMismatch h .logNode))

/-- Remembers the root before its first change. -/
def recordRoot : Tx Unit := do
  if (← get).rootRecorded then return
  charge
  modify fun s => { s with undo := .root s.pool.root :: s.undo }

/-- Changes the root. -/
def editRoot (edit : Root → Root) : Tx Unit := do
  recordRoot
  modify fun s => { s with pool := { s.pool with root := edit s.pool.root } }

/-- Allocates an object. -/
def alloc (object : Object) : Tx Handle := do
  charge
  let s ← get
  match s.pool.place object with
  | .error crash => throw (.crash crash)
  | .ok (h, p) =>
    set { s with pool := p, undo := .allocated h :: s.undo }
    return h

/-- Allocates a byte payload. -/
def allocBytes (bytes : Bytes) : Tx Handle := alloc (.payload bytes)

/-- Frees an object. Its slot is reused only after the scope has committed. -/
def free (h : Handle) : Tx Unit := do
  charge
  let before ← ofRead (·.resolve h)
  modify fun s => { s with pool := s.pool.clearSlot h, undo := .freed h before :: s.undo }

end Tx

/-- An operation in a scope of its own. -/
def Pool.transaction {α : Type} (p : Pool) (tx : Tx α) : Except Failure α × Pool :=
  match tx.run { pool := p } with
  | .ok a s => s.finish (.ok a)
  | .error failure s => s.finish (.error failure)

end PersistentTier
