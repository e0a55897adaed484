import PersistentTier.Command
import PersistentTier.LogBuffer
import PersistentTier.Text.Blank
import PersistentTier.Text.Numeral

/-!
# Command lines

A line is a command name with its arguments, separated by white space. The name is read without
regard to the case of ASCII letters, the arguments are taken as they are.

## Main definitions

* `Request`: what a line asks for
* `LineFault`: why a line is refused
* `parseLine`
-/

namespace PersistentTier.Shell

/-- What a line asks for. -/
inductive Request
  | set (key value : String)
  | get (key : String)
  | del (key : String)
  | append (command : Command)
  | switch
  | clear
  | flushLog
  | evict
  | evictBatch (count : Nat)
  | flushVictims
  | status
  | buffer (role : BufferRole)
  | entries (direction : Direction)
  | victims
  | index
  | compact
  deriving DecidableEq, Repr

/-- Why a line is refused. -/
inductive LineFault
  /-- No command has this name and takes these arguments. -/
  | unknown (name : String)
  /-- The size of a batch is not a number. -/
  | batchSize (text : String)
  deriving DecidableEq, Repr

/-- The text of a refused line. -/
def LineFault.message : LineFault → String
  | .unknown name => s!"unknown command or wrong arguments: {name}"
  | .batchSize text => s!"invalid batch size '{text}'"

/-- The request of a command name in lower case with its arguments. -/
def parseWords (name : String) (arguments : List String) : Except LineFault Request :=
  match name, arguments with
  | "set", [key, value] => .ok (.set key value)
  | "get", [key] => .ok (.get key)
  | "del", [key] => .ok (.del key)
  | "append", ["set", key, value] =>
    .ok (.append (.set (Bytes.ofString key) (Bytes.ofString value)))
  | "append", ["del", key] => .ok (.append (.del (Bytes.ofString key)))
  | "switch", [] => .ok .switch
  | "clear", [] => .ok .clear
  | "flush-log", [] => .ok .flushLog
  | "evict", [] => .ok .evict
  | "evict-batch", [count] =>
    match Text.wordOfNumeral? count with
    | some count => .ok (.evictBatch count)
    | none => .error (.batchSize count)
  | "flush-victims", [] => .ok .flushVictims
  | "status", [] => .ok .status
  | "pb-list", [] => .ok (.buffer .current)
  | "pb-list", ["current"] => .ok (.buffer .current)
  | "pb-list", ["other"] => .ok (.buffer .other)
  | "entries", [] => .ok (.entries .forward)
  | "entries", ["reverse"] => .ok (.entries .backward)
  | "victims", [] => .ok .victims
  | "dram", [] => .ok .index
  | "compact", [] => .ok .compact
  | name, _ => .error (.unknown name)

/-- The request of a line, if there is anything on it. -/
def parseLine (line : String) : Except LineFault (Option Request) :=
  match Text.words line with
  | [] => .ok none
  | name :: arguments => (parseWords (name.map Char.toLower) arguments).map some

end PersistentTier.Shell
