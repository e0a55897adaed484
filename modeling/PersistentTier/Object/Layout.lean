import PersistentTier.Bytes
import PersistentTier.Handle

/-!
# What a pool holds

The root is the only fixed entry point of a pool. Every other object sits in a slot and is reached
by following handles from the root: key/value nodes form the entry store and the victim pipeline,
log nodes form the two log buffers, and byte payloads hold keys, values and commands.

## Main definitions

* `Buffer`: the two log buffers
* `Root`: chain heads, the active buffer and the counters
* `ChainKind`, `EntryNode`, `LogNode`, `Object`: the objects of a pool
* `Object.footprint`: the bytes an object is counted for
-/

namespace PersistentTier

/-- The two log buffers. One of them is active and takes appends. -/
inductive Buffer
  | a
  | b
  deriving DecidableEq, Repr, Inhabited

namespace Buffer

/-- The other buffer. -/
def flipped : Buffer → Buffer
  | .a => .b
  | .b => .a

@[simp] theorem flipped_flipped (x : Buffer) : x.flipped.flipped = x := by cases x <;> rfl

/-- The written form of a buffer. -/
def text : Buffer → String
  | .a => "A"
  | .b => "B"

end Buffer

/-- The root of a pool. Counters are 64-bit words. -/
structure Root where
  entryFirst : Option Handle := none
  entryLast : Option Handle := none
  victimFirst : Option Handle := none
  logBufferA : Option Handle := none
  logBufferB : Option Handle := none
  activeBuffer : Buffer := .a
  entryCount : UInt64 := 0
  victimCount : UInt64 := 0
  logCount : UInt64 := 0
  deriving DecidableEq, Repr, Inhabited

namespace Root

/-- The head of a log buffer, its newest command. -/
def bufferHead (r : Root) : Buffer → Option Handle
  | .a => r.logBufferA
  | .b => r.logBufferB

/-- The root with another head for one log buffer. -/
def setBufferHead (r : Root) (buffer : Buffer) (head : Option Handle) : Root :=
  match buffer with
  | .a => { r with logBufferA := head }
  | .b => { r with logBufferB := head }

@[simp] theorem bufferHead_setBufferHead (r : Root) (x : Buffer) (head : Option Handle) :
    (r.setBufferHead x head).bufferHead x = head := by cases x <;> rfl

@[simp] theorem bufferHead_flipped_setBufferHead (r : Root) (x : Buffer) (head : Option Handle) :
    (r.setBufferHead x head).bufferHead x.flipped = r.bufferHead x.flipped := by cases x <;> rfl

end Root

/-- The chain a key/value node is linked into. -/
inductive ChainKind
  | entries
  | victims
  deriving DecidableEq, Repr, Inhabited

/-- The name of a chain in messages. -/
def ChainKind.text : ChainKind → String
  | .entries => "entry store"
  | .victims => "victim pipeline"

/-- A key/value pair, linked in both directions. -/
structure EntryNode where
  key : Handle
  value : Handle
  next : Option Handle := none
  prev : Option Handle := none
  chain : ChainKind := .entries
  deriving DecidableEq, Repr, Inhabited

/-- A logged command. The back link is kept for the head of a buffer only. -/
structure LogNode where
  command : Handle
  next : Option Handle := none
  prev : Option Handle := none
  deriving DecidableEq, Repr, Inhabited

/-- The contents of a slot. -/
inductive Object
  | entry (node : EntryNode)
  | log (node : LogNode)
  | payload (bytes : Bytes)
  deriving DecidableEq, Repr, Inhabited

/-- The three kinds of object. -/
inductive ObjectKind
  | entryNode
  | logNode
  | bytePayload
  deriving DecidableEq, Repr, Inhabited

/-- The name of a kind in messages. -/
def ObjectKind.text : ObjectKind → String
  | .entryNode => "entry node"
  | .logNode => "log node"
  | .bytePayload => "byte payload"

namespace Object

/-- The kind of an object. -/
def kind : Object → ObjectKind
  | .entry _ => .entryNode
  | .log _ => .logNode
  | .payload _ => .bytePayload

/-- The bytes that an object is counted for: a fixed size for nodes, its length for a payload. -/
def footprint : Object → Nat
  | .entry _ => 88
  | .log _ => 64
  | .payload bytes => bytes.length

end Object

end PersistentTier
