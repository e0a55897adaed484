import PersistentTier.Chain.Splice

/-!
# The double-buffered command log

Two chains of logged commands hang off the root, newest first. Appends go to the active buffer; the
other one is the generation being drained. Switching swaps the two roles by changing one field of
the root.

## Main definitions

* `LogBuffer.currentHead`, `otherHead`, `head`
* `LogBuffer.append`, `switch`, `clear`, `setHead`
* `LogBuffer.nodes`, `payloads`: the lazy walk over a buffer
* `LogBuffer.pending`: the commands of a buffer oldest first, or a complaint
-/

namespace PersistentTier

/-- The two roles of a log buffer. -/
inductive BufferRole
  /-- The buffer that takes appends. -/
  | current
  /-- The buffer being drained. -/
  | other
  deriving DecidableEq, Repr, Inhabited

namespace LogBuffer

/-- The buffer that has a role at present. -/
def inRole (r : Root) : BufferRole → Buffer
  | .current => r.activeBuffer
  | .other => r.activeBuffer.flipped

/-- The head of the buffer that has a role at present. -/
def head (p : Pool) (role : BufferRole) : Option Handle :=
  p.root.bufferHead (inRole p.root role)

/-- The head of the buffer that takes appends. -/
def currentHead (p : Pool) : Option Handle := head p .current

/-- The head of the buffer being drained. -/
def otherHead (p : Pool) : Option Handle := head p .other

open Tx

/-- Gives the buffer in a role another head. -/
def setHead (role : BufferRole) (head : Option Handle) : Tx Unit :=
  editRoot fun r => r.setBufferHead (inRole r role) head

/-- Makes a node the one before `head`, if there is a head. -/
def setPrev (node : Handle) (head : Option Handle) : Tx Unit :=
  match head with
  | some old => editLog old fun n => { n with prev := some node }
  | none => return

/-- Stores a command and links it at the head of the current buffer. -/
def append (command : Bytes) : Tx Handle := do
  let payload ← allocBytes command
  let node ← alloc (.log { command := payload })
  let head := currentHead (← get).pool
  editLog node fun n => { n with next := head }
  setPrev node head
  setHead .current (some node)
  increment .logCount 1
  return node

/-- Swaps the roles of the buffers. Returns the one that is now current. -/
def switch : Tx Buffer := do
  editRoot fun r => { r with activeBuffer := r.activeBuffer.flipped }
  return (← root).activeBuffer

/-- Frees one command. Returns the node after it. -/
def freeNode (h : Handle) : Tx (Option Handle) := do
  let node ← Tx.logNode h
  free node.command
  free h
  return node.next

/-- Frees the commands from `cursor` on, of which there may be `budget`, and counts them. -/
def freeFrom (recorded : UInt64) : (budget : Nat) → (cursor : Option Handle) → (count : UInt64) →
    Tx UInt64
  | _, none, count => return count
  | 0, some _, _ => fail (.corrupt (.logTooLong recorded))
  | budget + 1, some h, count => do
    let next ← freeNode h
    freeFrom recorded budget next (count + 1)

@[simp] theorem freeFrom_none (recorded : UInt64) (budget : Nat) (count : UInt64) :
    freeFrom recorded budget none count = pure count := by
  cases budget <;> rfl

/-- The role of the buffer with a given head. A head that both buffers share, such as none, is that
of the current one. -/
def roleOf (p : Pool) (head : Option Handle) : BufferRole :=
  if head = currentHead p then .current else .other

/-- The complaint about a head that is the head of neither buffer. -/
def notAHead : Option Handle → Cause
  | some h => .notABufferHead h
  | none => .corrupt .noEmptyBuffer

/-- Frees every command of the buffer with the given head. Returns their number. -/
def clear (head : Option Handle) : Tx UInt64 := do
  let p := (← get).pool
  require (head = currentHead p ∨ head = otherHead p) (notAHead head)
  let count ← freeFrom p.root.logCount p.root.logCount.toNat head 0
  setHead (roleOf p head) none
  decrement .logCount count
  return count

/-- At most `budget` log nodes from `cursor` on, as far as they can be read. -/
def nodesFrom (p : Pool) : (budget : Nat) → (cursor : Option Handle) → List Handle
  | 0, _ => []
  | _ + 1, none => []
  | budget + 1, some h =>
    match p.logNode h with
    | .ok node => h :: nodesFrom p budget node.next
    | .error _ => []

@[simp] theorem nodesFrom_none (p : Pool) (budget : Nat) : nodesFrom p budget none = [] := by
  cases budget <;> rfl

/-- The log nodes of a buffer, newest first, as far as they can be read. -/
def nodes (p : Pool) (head : Option Handle) : List Handle :=
  nodesFrom p p.root.logCount.toNat head

/-- The command that a log node stores. -/
def payload? (p : Pool) (h : Handle) : Option Bytes :=
  (do let node ← p.logNode h
      p.bytes node.command : Except Unreadable Bytes).toOption

/-- The commands of a buffer, newest first, as far as they can be read. -/
def payloads (p : Pool) (head : Option Handle) : List Bytes :=
  (nodes p head).filterMap (payload? p)

/-- The commands from `cursor` on, of which there may be `budget`. -/
def pendingFrom (p : Pool) : (budget : Nat) → (cursor : Option Handle) →
    Except Corruption (List Bytes)
  | _, none => .ok []
  | 0, some _ => .error (.logTooLong p.root.logCount)
  | budget + 1, some h =>
    match p.logNode h with
    | .error reason => .error (.logNodeUnreadable h reason)
    | .ok node =>
      match p.bytes node.command with
      | .error reason => .error (.commandUnreadable h reason)
      | .ok command => do
        let older ← pendingFrom p budget node.next
        return command :: older

@[simp] theorem pendingFrom_none (p : Pool) (budget : Nat) : pendingFrom p budget none = .ok [] := by
  cases budget <;> rfl

/-- The commands of a buffer, oldest first. A buffer that cannot be read in full is corrupt. -/
def pending (p : Pool) (head : Option Handle) : Except Corruption (List Bytes) :=
  (pendingFrom p p.root.logCount.toNat head).map List.reverse

end LogBuffer

end PersistentTier
