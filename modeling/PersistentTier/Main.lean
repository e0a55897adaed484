import PersistentTier.Shell.Session

/-!
# The program

The outermost layer: it takes the volume from disk, feeds lines from standard input to the tier,
prints what comes of them, and brings every change of the volume back to disk. It decides nothing.
-/

namespace PersistentTier.Program

open Shell

/-- The directory part of a path, if there is one. -/
def directoryOf (path : String) : Option String :=
  match (path.splitOn "/").reverse with
  | _ :: rest@(_ :: _) =>
    let directory := "/".intercalate rest.reverse
    if directory.isEmpty then none else some directory
  | _ => none

/-- What stands at a path. Whatever is there but cannot be read as a file stands in the way like a
directory. -/
def readLocation (path : Option String) : IO Location := do
  match path with
  | none => return {}
  | some path =>
    try
      let content ← IO.FS.readBinFile path
      return { standing := .file content.toList }
    catch
      | .noFileOrDirectory .. => return {}
      | _ => return { standing := .directory }

/-- Brings the content of a location to its path. Content that was only added to is appended, other
content replaces the file. -/
def writeLocation (path : Option String) (before after : Location) : IO Unit := do
  match path, after.content? with
  | some path, some content =>
    if before.standing ≠ after.standing then
      if let some directory := directoryOf path then
        IO.FS.createDirAll directory
      let old := before.content?
      if old.any fun old => content.take old.length = old then
        let added := content.drop (old.elim 0 List.length)
        let file ← IO.FS.Handle.mk path .append
        file.write ⟨added.toArray⟩
        file.flush
      else
        let temporary := path ++ ".tmp"
        IO.FS.writeBinFile temporary ⟨content.toArray⟩
        IO.FS.rename temporary path
  | _, _ => return

/-- Brings the changes of a volume to disk. -/
def writeVolume (settings : Settings) (before after : Volume) : IO Unit := do
  writeLocation settings.poolPath before.image after.image
  writeLocation settings.filePath before.file after.file

/-- The volume of an open tier, as far as bytes have been written out. -/
def currentVolume (t : Tier) (volume : Volume) : Volume where
  image := t.pool.image.getD volume.image
  file := t.file.place.getD volume.file

/-- Serves the lines of standard input. The log is drained whenever the interval has passed. -/
partial def serve (settings : Settings) (input : IO.FS.Stream) (t : Tier) (volume : Volume)
    (lastDrain : Nat) : IO (Tier × Volume × Bool) := do
  let now ← IO.monoMsNow
  let due := now - lastDrain ≥ settings.flushInterval
  let t := if due then finalDrain t else t
  let lastDrain := if due then now else lastDrain
  let line ← input.getLine
  if line.isEmpty then return (t, volume, false)
  let (outcome, t) := serveLine t (chomp line)
  for text in outcome.output do IO.println text
  for text in outcome.complaints do IO.eprintln text
  let after := currentVolume t volume
  writeVolume settings volume after
  match outcome with
  | .stopped crash =>
    IO.eprintln crash.message
    return (t, after, true)
  | _ => serve settings input t after lastDrain

/-- Opens the tier, serves standard input and closes the tier. Returns the exit code. -/
def run (settings : Settings) : IO UInt32 := do
  let usesDisk := settings.durability ≠ .none
  let volume : Volume := {
    image := ← readLocation (if usesDisk then settings.poolPath else none)
    file := ← readLocation (if usesDisk then settings.filePath else none) }
  let fresh := UInt64.ofNat (← IO.rand 0 (UInt64.size - 1))
  let seed := UInt64.ofNat (← IO.rand 0 (UInt64.size - 1))
  match Tier.open settings volume fresh seed with
  | (.error failure, after) =>
    writeVolume settings volume after
    IO.eprintln (errorLine "failed to open the persistent tier")
    IO.eprintln s!"\nCaused by:\n    {failure.message}"
    return 1
  | (.ok t, _) =>
    let opened := currentVolume t volume
    writeVolume settings volume opened
    let (t, served, stopped) ← serve settings (← IO.getStdin) t opened 0
    if stopped then return 101
    match Tier.checkpoint.run (finalDrain t) with
    | .ok () t =>
      writeVolume settings served (t.close served)
      return 0
    | .error failure t =>
      writeVolume settings served (t.close served)
      IO.eprintln (errorLine failure.message)
      return 1

end PersistentTier.Program

open PersistentTier PersistentTier.Shell in
/-- The program. -/
def main (words : List String) : IO UInt32 := do
  match parseArguments words with
  | .error .displayHelp =>
    IO.print (unlines helpLines)
    return 0
  | .error fault =>
    IO.eprintln s!"error: {fault.text}"
    return 2
  | .ok arguments =>
    let settings := arguments.settings
    match settings.validate with
    | .error fault =>
      IO.eprintln (errorLine fault.message)
      return 1
    | .ok () => Program.run settings
