import PersistentTier.Failure

/-!
# Places on disk

A location is one path: what stands there, what was moved away from it, and the steps of file
access that fail there at present. A writer that holds a file open follows the file, not the
path: it goes on writing to a file that was moved away or unlinked.

## Main definitions

* `Standing`, `Location`
* `Location.attempt`: whether a step of file access succeeds
* `Location.install`: put a file at the path atomically
* `Target`, `Location.append`: where an open writer's bytes go
* `Location.appendTail`, `cutTail`, `moveAside`, `moveBack`, `unlink`: what others do to the file
-/

namespace PersistentTier

/-- What stands at a path. -/
inductive Standing
  | absent
  | directory
  | file (content : Bytes)
  deriving DecidableEq, Repr, Inhabited

/-- A path on disk. -/
structure Location where
  /-- What stands at the path. -/
  standing : Standing := .absent
  /-- What was moved away from the path. -/
  aside : Standing := .absent
  /-- The steps of file access that fail at present. -/
  obstacles : List FileStep := []
  deriving DecidableEq, Repr, Inhabited

namespace Standing

/-- The content of a file. -/
def content? : Standing → Option Bytes
  | .file content => some content
  | _ => none

/-- The file with more bytes at its end. -/
def append (standing : Standing) (bytes : Bytes) : Standing :=
  match standing with
  | .file content => .file (content ++ bytes)
  | standing => standing

end Standing

namespace Location

/-- The content of the file at a path, if a file stands there. -/
def content? (place : Location) : Option Bytes :=
  place.standing.content?

/-- A step of file access. It succeeds unless it is obstructed. -/
def attempt (place : Location) (step : FileStep) : Except Cause Unit :=
  if step ∈ place.obstacles then .error (.io (.failed step .inputOutput)) else .ok ()

/-- A step that needs something else than a directory at the path. -/
def attemptOnFile (place : Location) (step : FileStep) : Except Cause Unit :=
  match place.standing with
  | .directory => .error (.io (.failed step .isDirectory))
  | _ => place.attempt step

/-- Puts a file at the path, in place of the one that stood there. -/
def install (place : Location) (step : FileStep) (content : Bytes) : Except Cause Location := do
  place.attemptOnFile step
  return { place with standing := .file content }

end Location

/-- The file that an open writer holds. -/
inductive Target
  /-- The file at the path. -/
  | atPath
  /-- The file that was moved away from the path. -/
  | aside
  /-- A file without a name, with its content. -/
  | unlinked (content : Bytes)
  deriving DecidableEq, Repr, Inhabited

namespace Location

/-- The location and the target after an open writer has appended to its file. -/
def append (place : Location) (target : Target) (bytes : Bytes) : Location × Target :=
  match target with
  | .atPath => ({ place with standing := place.standing.append bytes }, .atPath)
  | .aside => ({ place with aside := place.aside.append bytes }, .aside)
  | .unlinked content => (place, .unlinked (content ++ bytes))

/-! ## What others do to the file -/

/-- Bytes are added at the end of the file, which is created if need be. -/
def appendTail (place : Location) (bytes : Bytes) : Location :=
  match place.standing with
  | .absent => { place with standing := .file bytes }
  | standing => { place with standing := standing.append bytes }

/-- The file gets another content, or is created with it. -/
def overwrite (place : Location) (content : Bytes) : Location :=
  match place.standing with
  | .directory => place
  | _ => { place with standing := .file content }

/-- The last `n` bytes of the file are cut off. -/
def cutTail (place : Location) (n : Nat) : Location :=
  match place.standing with
  | .file content => { place with standing := .file (content.take (content.length - n)) }
  | _ => place

/-- What stands at the path is moved away and an empty directory put in its place. A directory does
not replace a file that was moved away before. -/
def moveAside (place : Location) : Location :=
  match place.standing, place.aside with
  | .directory, .file _ => place
  | standing, _ => { place with standing := .directory, aside := standing }

/-- The directory is removed and what was moved away put back. -/
def moveBack (place : Location) : Location :=
  match place.standing with
  | .directory => { place with standing := place.aside, aside := .absent }
  | _ => place

/-- The file is unlinked. -/
def unlink (place : Location) : Location :=
  match place.standing with
  | .file _ => { place with standing := .absent }
  | _ => place

end Location

namespace Target

/-- The target of an open writer once the file at the path has been moved away. -/
def movedAside : Target → Target
  | .atPath => .aside
  | target => target

/-- The target of an open writer once the file that was moved away is back. -/
def movedBack : Target → Target
  | .aside => .atPath
  | target => target

/-- The target of an open writer once the file at the path has been unlinked. -/
def afterUnlink (target : Target) (place : Location) : Target :=
  match target, place.standing with
  | .atPath, .file content => .unlinked content
  | target, _ => target

end Target

end PersistentTier
