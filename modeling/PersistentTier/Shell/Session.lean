import PersistentTier.Shell.Arguments
import PersistentTier.Shell.Reply

/-!
# Sessions

A session opens a tier, carries out line after line, drains the log once more and checkpoints. A
refused or failed line is reported and the session goes on.

## Main definitions

* `Outcome`: what one line leads to
* `serveLine`, `serveLines`, `serveSession`
* `Program`: what a run of the whole program shows
* `runProgram`
-/

namespace PersistentTier.Shell

/-- What one line leads to. -/
inductive Outcome
  /-- There was nothing on the line. -/
  | blank
  /-- The lines of a reply. -/
  | reply (lines : List String)
  /-- A complaint. -/
  | complaint (message : String)
  /-- The process stops. -/
  | stopped (crash : Crash)
  deriving DecidableEq, Repr

/-- Carries out one line. -/
def serveLine (t : Tier) (line : String) : Outcome × Tier :=
  match parseLine line with
  | .error fault => (.complaint fault.message, t)
  | .ok none => (.blank, t)
  | .ok (some request) =>
    match (answer request).run t with
    | .ok lines t => (.reply lines, t)
    | .error (.crash crash) t => (.stopped crash, t)
    | .error failure t => (.complaint failure.message, t)

/-- Carries out lines one after another, unless the process stops. -/
def serveLines (t : Tier) : List String → List Outcome × Tier
  | [] => ([], t)
  | line :: rest =>
    match serveLine t line with
    | (.stopped crash, t) => ([.stopped crash], t)
    | (outcome, t) =>
      let (outcomes, t) := serveLines t rest
      (outcome :: outcomes, t)

/-- The last drain of the log. Its failure is only noted in the program's own journal. -/
def finalDrain (t : Tier) : Tier :=
  match (Tier.tolerate (do let _ ← Tier.flushLog)).run t with
  | .ok () t | .error _ t => t

/-- Carries out the lines of a session, drains the log once more if asked to, and checkpoints. -/
def serveSession (t : Tier) (lines : List String) (drain : Bool) :
    List Outcome × Except Failure Unit × Tier :=
  let (outcomes, t) := serveLines t lines
  let t := if drain then finalDrain t else t
  match Tier.checkpoint.run t with
  | .ok () t => (outcomes, .ok (), t)
  | .error failure t => (outcomes, .error failure, t)

/-- What an outcome prints, line by line. -/
def Outcome.output : Outcome → List String
  | .reply lines => lines
  | _ => []

/-- What an outcome complains of, line by line. -/
def Outcome.complaints : Outcome → List String
  | .complaint message => [s!"ERR {message}"]
  | _ => []

/-- A line without the characters that end it: a line feed, and a carriage return before it. -/
def chomp (line : String) : String :=
  let chars := line.toList.reverse
  let chars := if chars.head? = some '\n' then chars.tail else chars
  let chars := if chars.head? = some '\r' then chars.tail else chars
  String.ofList chars.reverse

/-- The lines of an input. The last one need not be ended. -/
def inputLines (input : String) : List String :=
  let pieces := input.splitOn "\n"
  let pieces := if pieces.getLast? = some "" then pieces.dropLast else pieces
  pieces.map chomp

/-- Lines as one text. -/
def unlines (lines : List String) : String := String.join (lines.map (· ++ "\n"))

/-- What a run of the whole program shows. -/
structure Program where
  code : Nat
  output : String
  complaints : List String
  volume : Volume

/-- What the program says when it ends early. -/
def errorLine (message : String) : String := s!"Error: {message}"

/-- A run of the whole program on a volume. -/
def runProgram (words : List String) (volume : Volume) (fresh seed : UInt64)
    (input : String) : Program :=
  match parseArguments words with
  | .error .displayHelp => { code := 0, output := unlines helpLines, complaints := [], volume }
  | .error _ => { code := 2, output := "", complaints := [], volume }
  | .ok arguments =>
    let settings := arguments.settings
    match settings.validate with
    | .error fault =>
      { code := 1, output := "", complaints := [errorLine fault.message], volume }
    | .ok () =>
    match Tier.open settings volume fresh seed with
    | (.error _, volume) =>
      { code := 1, output := "", volume
        complaints := [errorLine "failed to open the persistent tier"] }
    | (.ok t, volume) =>
      let (outcomes, checkpoint, t) := serveSession t (inputLines input) true
      let output := unlines (outcomes.flatMap Outcome.output)
      let complaints := outcomes.flatMap Outcome.complaints
      let volume := t.close volume
      match checkpoint with
      | .ok () => { code := 0, output, complaints, volume }
      | .error failure =>
        { code := 1, output, complaints := complaints ++ [errorLine failure.message], volume }

end PersistentTier.Shell
