import PersistentTier.Command
import PersistentTier.Durability
import PersistentTier.Location

/-!
# The append-only file

The file behind the tier is a sequence of frames: the length of an encoded command in four bytes,
least significant first, and the encoded command. Appended frames collect in a buffer and reach the
file when the buffer runs full, at a sync and on closing. Reading stops without complaint at a
frame that the file ends within, which is what a crash in the middle of an append leaves behind.

## Main definitions

* `frame`, `readFrames`: writing and reading the file's content
* `Writer`, `AppendFile`
* `AppendFile.open`, `disabled`, `close`
* `AppendFile.append`, `appendEncoded`, `sync`, `readAll`, `compactTo`
-/

namespace PersistentTier

/-- The frame of an encoded command. -/
def frame (encoded : Bytes) : Bytes := littleEndian 4 encoded.length ++ encoded

/-- The commands of at most `fuel` frames, up to one that is cut short. -/
def readFramesWithin : (fuel : Nat) → Bytes → Except Cause (List Command)
  | 0, _ => .ok []
  | fuel + 1, bytes =>
    match bytes.front? 4 with
    | none => .ok []
    | some (length, rest) =>
      match rest.front? (ofLittleEndian length) with
      | none => .ok []
      | some (encoded, rest) => do
        let command ← Command.decode encoded
        let commands ← readFramesWithin fuel rest
        return command :: commands

/-- The commands of a file, up to a frame that is cut short. A frame takes four bytes or more, so
there are fewer frames than bytes. -/
def readFrames (bytes : Bytes) : Except Cause (List Command) :=
  readFramesWithin (bytes.length + 1) bytes

/-- The bytes that a writer holds back at most. -/
def bufferCapacity : Nat := 8192

/-- An open writer: its file and the bytes that have not reached it. -/
structure Writer where
  target : Target := .atPath
  pending : Bytes := []
  deriving DecidableEq, Repr, Inhabited

/-- An append-only file. -/
structure AppendFile where
  /-- Where the file is, unless appending is disabled. -/
  place : Option Location
  /-- The open writer. Without one every append is discarded. -/
  writer : Option Writer
  durability : Durability
  /-- The number of records appended since the file was last replaced. -/
  recordsSinceCompaction : Nat := 0
  deriving DecidableEq, Repr, Inhabited

/-- An operation on an append-only file. A failed one leaves the file as far as it got. -/
abbrev FileOp := EStateM Cause AppendFile

namespace AppendFile

/-- A file that discards everything. -/
def disabled : AppendFile := { place := none, writer := none, durability := .none }

/-- Whether appends are written. -/
def isEnabled (f : AppendFile) : Bool := f.writer.isSome

/-- The location with a file at it, which is created if need be, for appending. -/
def ensureFile (place : Location) : Except Cause Location := do
  place.attemptOnFile .openLog
  match place.standing with
  | .absent => return { place with standing := .file [] }
  | _ => return place

/-- Opens the file at a location. Without durability nothing is opened. -/
def «open» (place : Location) (durability : Durability) : Except Cause AppendFile := do
  place.attempt .createLogDirectory
  match durability with
  | .none => return { place := some place, writer := none, durability := durability }
  | _ =>
    let place ← ensureFile place
    return { place := some place, writer := some {}, durability := durability }

/-! ## Writing -/

/-- Hands bytes to the file of a writer. -/
def writeThrough (step : FileStep) (bytes : Bytes) : FileOp Unit := fun f =>
  match f.place, f.writer with
  | some place, some writer =>
    match place.attempt step with
    | .error cause => .error cause f
    | .ok () =>
      let (place, target) := place.append writer.target bytes
      .ok () { f with place := some place, writer := some { writer with target := target } }
  | _, _ => .ok () f

/-- Changes what the writer holds back. -/
def setPending (change : Bytes → Bytes) : FileOp Unit :=
  modify fun f => { f with writer := f.writer.map fun w => { w with pending := change w.pending } }

/-- Hands the buffered bytes to the file. -/
def flushBuffer (step : FileStep) : FileOp Unit := do
  match (← get).writer with
  | none => return
  | some writer =>
    if writer.pending.isEmpty then return
    else do
      writeThrough step writer.pending
      setPending fun _ => []

/-- Empties the buffer if some bytes do not fit beside what it holds. -/
def makeRoom (bytes : Bytes) : FileOp Unit := do
  match (← get).writer with
  | none => return
  | some writer =>
    if writer.pending.length + bytes.length > bufferCapacity then flushBuffer .writeLog else return

/-- Writes bytes by way of the buffer, or past it if they would fill it alone. -/
def put (bytes : Bytes) : FileOp Unit := do
  makeRoom bytes
  if bytes.length ≥ bufferCapacity then writeThrough .writeLog bytes
  else setPending fun pending => pending ++ bytes

/-- Appends a command that is already encoded. -/
def appendEncoded (encoded : Bytes) : FileOp Unit := do
  if (← get).isEnabled then
    put (littleEndian 4 encoded.length)
    put encoded
    modify fun f => { f with recordsSinceCompaction := f.recordsSinceCompaction + 1 }

/-- Appends a command. -/
def append (command : Command) : FileOp Unit := appendEncoded command.encode

/-- Hands the buffered bytes to the file, and the file to stable storage in synchronous mode. -/
def sync : FileOp Unit := do
  if (← get).isEnabled then
    flushBuffer .flushLog
    let f ← get
    if f.durability = .sync then
      if let some place := f.place then
        if let .error cause := place.attempt .syncLog then throw cause

/-- Closes the file. Buffered bytes reach it if that is possible. -/
def close (f : AppendFile) : Option Location :=
  match (flushBuffer .writeLog).run f with
  | .ok _ f | .error _ f => f.place

/-! ## Reading and replacing -/

/-- The commands at the file's path, as far as they have been written out. -/
def readAll (f : AppendFile) : Except Cause (List Command) :=
  match f.place with
  | none => .ok []
  | some place =>
    if f.durability = .none then .ok []
    else match place.standing with
      | .absent => .ok []
      | .directory => do
        place.attempt .openLogForReading
        throw (.io (.failed .readRecordLength .isDirectory))
      | .file content => do
        place.attempt .openLogForReading
        place.attempt .readRecordLength
        readFrames content

/-- Replaces the file by the given commands, atomically. The writer is given up before the new file
is put in place. Returns the number of commands. -/
def compactTo (commands : List Command) : FileOp Nat := do
  let f ← get
  match f.place with
  | none => return 0
  | some _ =>
    if f.durability = .none then return 0
    sync
    let f ← get
    let some place := f.place | return 0
    let steps := [FileStep.createTempLog, .writeTempLog, .flushTempLog, .syncTempLog]
    if let .error cause := steps.forM place.attempt then throw cause
    -- From here on a failure leaves the file without a writer.
    set { f with writer := none }
    match place.install .installLog (commands.flatMap fun command => frame command.encode) with
    | .error cause => throw cause
    | .ok place =>
      set { f with place := some place, writer := none }
      if let .error cause := place.attempt .reopenLog then throw cause
      set { f with place := some place, writer := some {}, recordsSinceCompaction := 0 }
      return commands.length

/-! ## What others do to the file -/

/-- The file with its place changed by someone else. -/
def withPlace (f : AppendFile) (change : Location → Location) : AppendFile :=
  { f with place := f.place.map change }

/-- The file with the target of its writer changed. -/
def withTarget (f : AppendFile) (change : Target → Target) : AppendFile :=
  { f with writer := f.writer.map fun w => { w with target := change w.target } }

/-- Someone moves the file away and puts a directory in its place. -/
def moveAside (f : AppendFile) : AppendFile :=
  (f.withTarget Target.movedAside).withPlace Location.moveAside

/-- Someone puts the file back that was moved away. -/
def moveBack (f : AppendFile) : AppendFile :=
  (f.withTarget Target.movedBack).withPlace Location.moveBack

/-- Someone unlinks the file. -/
def unlink (f : AppendFile) : AppendFile :=
  (f.withTarget fun target => target.afterUnlink (f.place.getD {})).withPlace Location.unlink

end AppendFile

end PersistentTier
