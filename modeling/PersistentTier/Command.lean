import PersistentTier.Failure
import PersistentTier.MessagePack.Writer
import PersistentTier.MessagePack.Record

/-!
# Logged commands

A command is a write to the key space. Commands are stored in their encoded form in the log buffers
and in the append-only file.

## Main definitions

* `Command`: setting a key to a value, deleting a key
* `Command.encode`, `Command.decode`
-/

namespace PersistentTier

/-- A write command. -/
inductive Command
  | set (key value : Bytes)
  | del (key : Bytes)
  deriving DecidableEq, Repr, Inhabited

namespace Command

/-- The key that a command is about. -/
def key : Command → Bytes
  | .set key _ => key
  | .del key => key

/-- The names of the two commands in their encoded form. -/
def names : List Bytes := [Bytes.ascii "Set", Bytes.ascii "Del"]

/-- The encoded form: the command's name with the list of its arguments. -/
def encode : Command → Bytes
  | .set key value => MessagePack.writeTagged (Bytes.ascii "Set")
      (MessagePack.writeArrayHeader 2 ++ MessagePack.writeOctets key ++ MessagePack.writeOctets value)
  | .del key => MessagePack.writeTagged (Bytes.ascii "Del")
      (MessagePack.writeArrayHeader 1 ++ MessagePack.writeOctets key)

open MessagePack in
/-- How the key and the value of a `set` are read. -/
def setSchema : Schema (Bytes × Bytes) where
  names := [Bytes.ascii "key", Bytes.ascii "value"]
  blank := ([], [])
  field
    | 0, (_, value), h => return (← octets h, value)
    | _, (key, _), h => return (key, ← octets h)

open MessagePack in
/-- How the key of a `del` is read. -/
def delSchema : Schema Bytes where
  names := [Bytes.ascii "key"]
  blank := []
  field _ _ h := octets h

open MessagePack in
/-- Reads a command. -/
def decoder : Decoder Command := fun h => do
  match ← dataVariant names h with
  | 0 =>
    let (key, value) ← read setSchema.decoder
    return .set key value
  | _ => return .del (← read delSchema.decoder)

/-- The command that a byte string starts with. -/
def decode (bytes : Bytes) : Except Cause Command :=
  match MessagePack.decode? decoder bytes with
  | some command => .ok command
  | none => .error (.codec .malformed)

end Command

end PersistentTier
