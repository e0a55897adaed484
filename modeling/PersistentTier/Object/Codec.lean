import PersistentTier.Object.Layout
import PersistentTier.MessagePack.Writer
import PersistentTier.MessagePack.Record

/-!
# The stored form of objects

Handles, roots and nodes are records, a buffer and a chain are enumerations without data, and an
object is an enumeration with data.

## Main definitions

* `Handle.encode`, `Root.encode`, `Object.encode`
* `Handle.decoder`, `Root.decoder`, `Object.decoder`
-/

namespace PersistentTier

open MessagePack

namespace Handle

/-- The stored form of a handle. -/
def encode (h : Handle) : Bytes := writeArrayHeader 2 ++ writeWord h.pool ++ writeWord h.offset

/-- How a handle is read. -/
def schema : Schema Handle where
  names := ["pool_id", "offset"].map Bytes.ascii
  blank := ⟨0, 0⟩
  field
    | 0, handle, h => return { handle with pool := ← word h }
    | _, handle, h => return { handle with offset := ← word h }

/-- Reads a handle. -/
def decoder : Decoder Handle := schema.decoder

end Handle

namespace Buffer

/-- The names of the two buffers. -/
def names : List Bytes := ["A", "B"].map Bytes.ascii

/-- The stored form of a buffer. -/
def encode (x : Buffer) : Bytes := writeName (Bytes.ascii x.text)

/-- Reads a buffer. -/
def decoder : Decoder Buffer := fun h => do
  return if (← unitVariant names h) = 0 then .a else .b

end Buffer

namespace ChainKind

/-- The names of the two chains. -/
def names : List Bytes := ["Entries", "Victims"].map Bytes.ascii

/-- The stored form of a chain's tag. -/
def encode : ChainKind → Bytes
  | .entries => writeName (Bytes.ascii "Entries")
  | .victims => writeName (Bytes.ascii "Victims")

/-- Reads a chain's tag. -/
def decoder : Decoder ChainKind := fun h => do
  return if (← unitVariant names h) = 0 then .entries else .victims

end ChainKind

namespace Root

/-- The stored form of a root. -/
def encode (r : Root) : Bytes :=
  writeArrayHeader 9
    ++ writeOption Handle.encode r.entryFirst
    ++ writeOption Handle.encode r.entryLast
    ++ writeOption Handle.encode r.victimFirst
    ++ writeOption Handle.encode r.logBufferA
    ++ writeOption Handle.encode r.logBufferB
    ++ r.activeBuffer.encode
    ++ writeWord r.entryCount
    ++ writeWord r.victimCount
    ++ writeWord r.logCount

/-- How a root is read. The five handles may be left out. -/
def schema : Schema Root where
  names :=
    ["entry_first", "entry_last", "victim_first", "log_buffer_a", "log_buffer_b", "active_buffer",
      "entry_count", "victim_count", "log_count"].map Bytes.ascii
  optional := [0, 1, 2, 3, 4]
  blank := {}
  field
    | 0, root, h => return { root with entryFirst := ← option Handle.decoder h }
    | 1, root, h => return { root with entryLast := ← option Handle.decoder h }
    | 2, root, h => return { root with victimFirst := ← option Handle.decoder h }
    | 3, root, h => return { root with logBufferA := ← option Handle.decoder h }
    | 4, root, h => return { root with logBufferB := ← option Handle.decoder h }
    | 5, root, h => return { root with activeBuffer := ← Buffer.decoder h }
    | 6, root, h => return { root with entryCount := ← word h }
    | 7, root, h => return { root with victimCount := ← word h }
    | _, root, h => return { root with logCount := ← word h }

/-- Reads a root. -/
def decoder : Decoder Root := schema.decoder

end Root

namespace EntryNode

/-- The stored form of a key/value node. -/
def encode (node : EntryNode) : Bytes :=
  writeArrayHeader 5 ++ node.key.encode ++ node.value.encode
    ++ writeOption Handle.encode node.next ++ writeOption Handle.encode node.prev
    ++ node.chain.encode

/-- How a key/value node is read. Its links may be left out. -/
def schema : Schema EntryNode where
  names := ["key", "value", "next", "prev", "chain"].map Bytes.ascii
  optional := [2, 3]
  blank := { key := ⟨0, 0⟩, value := ⟨0, 0⟩ }
  field
    | 0, node, h => return { node with key := ← Handle.decoder h }
    | 1, node, h => return { node with value := ← Handle.decoder h }
    | 2, node, h => return { node with next := ← option Handle.decoder h }
    | 3, node, h => return { node with prev := ← option Handle.decoder h }
    | _, node, h => return { node with chain := ← ChainKind.decoder h }

/-- Reads a key/value node. -/
def decoder : Decoder EntryNode := schema.decoder

end EntryNode

namespace LogNode

/-- The stored form of a log node. -/
def encode (node : LogNode) : Bytes :=
  writeArrayHeader 3 ++ node.command.encode
    ++ writeOption Handle.encode node.next ++ writeOption Handle.encode node.prev

/-- How a log node is read. Its links may be left out. -/
def schema : Schema LogNode where
  names := ["command", "next", "prev"].map Bytes.ascii
  optional := [1, 2]
  blank := { command := ⟨0, 0⟩ }
  field
    | 0, node, h => return { node with command := ← Handle.decoder h }
    | 1, node, h => return { node with next := ← option Handle.decoder h }
    | _, node, h => return { node with prev := ← option Handle.decoder h }

/-- Reads a log node. -/
def decoder : Decoder LogNode := schema.decoder

end LogNode

namespace Object

/-- The stored form of an object. -/
def encode : Object → Bytes
  | .entry node => writeTagged (Bytes.ascii "Entry") node.encode
  | .log node => writeTagged (Bytes.ascii "Log") node.encode
  | .payload bytes => writeTagged (Bytes.ascii "Bytes") (writeOctets bytes)

/-- The names of the kinds of object. -/
def names : List Bytes := ["Entry", "Log", "Bytes"].map Bytes.ascii

/-- Reads an object. -/
def decoder : Decoder Object := fun h => do
  match ← dataVariant names h with
  | 0 => return .entry (← read EntryNode.decoder)
  | 1 => return .log (← read LogNode.decoder)
  | _ => return .payload (← read octets)

end Object

end PersistentTier
