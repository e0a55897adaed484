import PersistentTier.Settings
import PersistentTier.Text.Numeral

/-!
# Program arguments

Every argument is a long flag with a value, given as `--flag value` or `--flag=value`. The value of
the first form is checked once the next known flag or the end is reached, so an unknown word after
it is reported first.

## Main definitions

* `Arguments`: the values of the flags
* `ArgumentFault`: why arguments are refused
* `helpLines`
* `parseArguments`
* `Arguments.settings`
-/

namespace PersistentTier.Shell

/-- The flags of the program. -/
inductive Flag
  | dataDir
  | durability
  | policy
  | maxEntries
  | evictBatch
  | victimFlushThreshold
  | flushIntervalMs
  | readLatencyNs
  | writeLatencyNs
  | seed
  deriving DecidableEq, Repr

namespace Flag

/-- All flags, in the order in which help lists them. -/
def all : List Flag :=
  [.dataDir, .durability, .policy, .maxEntries, .evictBatch, .victimFlushThreshold,
    .flushIntervalMs, .readLatencyNs, .writeLatencyNs, .seed]

/-- The name of a flag. -/
def name : Flag → String
  | .dataDir => "data-dir"
  | .durability => "durability"
  | .policy => "policy"
  | .maxEntries => "max-entries"
  | .evictBatch => "evict-batch"
  | .victimFlushThreshold => "victim-flush-threshold"
  | .flushIntervalMs => "flush-interval-ms"
  | .readLatencyNs => "read-latency-ns"
  | .writeLatencyNs => "write-latency-ns"
  | .seed => "seed"

/-- The flag of a given name. -/
def ofName (name : String) : Option Flag := all.find? (·.name = name)

end Flag

/-- Why arguments are refused. -/
inductive ArgumentFault
  /-- A value does not parse. -/
  | valueValidation
  /-- A value is missing or empty. -/
  | invalidValue
  /-- A word is neither a flag nor the value of one. -/
  | unknownArgument
  /-- A flag is given twice. -/
  | argumentConflict
  /-- A flag that takes no value is given one. -/
  | tooManyValues
  /-- Help is asked for. -/
  | displayHelp
  deriving DecidableEq, Repr

/-- The name of a fault. -/
def ArgumentFault.text : ArgumentFault → String
  | .valueValidation => "ValueValidation"
  | .invalidValue => "InvalidValue"
  | .unknownArgument => "UnknownArgument"
  | .argumentConflict => "ArgumentConflict"
  | .tooManyValues => "TooManyValues"
  | .displayHelp => "DisplayHelp"

/-- The values of the flags. -/
structure Arguments where
  dataDir : Option String := none
  durability : Durability := .sync
  policy : PolicyKind := .lru
  maxEntries : Option Nat := none
  evictBatch : Nat := 16
  victimFlushThreshold : Nat := 64
  flushIntervalMs : Nat := 1000
  readLatencyNs : Nat := 0
  writeLatencyNs : Nat := 0
  seed : Option UInt64 := none
  deriving DecidableEq, Repr, Inhabited

/-! ## Help -/

namespace Flag

/-- What a flag is for, where its name does not say it. -/
def purpose : Flag → Option String
  | .dataDir => some "Directory holding the pool image and the AOF (volatile when omitted)"
  | .durability => some "sync, async or none"
  | .policy => some "lru or random (allkeys-lru / allkeys-random also accepted)"
  | .flushIntervalMs => some "Log flush period in milliseconds"
  | .seed => some "Seed for the random eviction policy"
  | _ => none

/-- The value that stands for a flag that is not given. -/
def defaultValue : Flag → Option String
  | .dataDir | .maxEntries | .seed => none
  | .durability => some "sync"
  | .policy => some "lru"
  | .evictBatch => some "16"
  | .victimFlushThreshold => some "64"
  | .flushIntervalMs => some "1000"
  | .readLatencyNs | .writeLatencyNs => some "0"

/-- The word that stands for the value of a flag. -/
def placeholder (flag : Flag) : String :=
  flag.name.map fun c => if c = '-' then '_' else c.toUpper

/-- The two lines of help on a flag. -/
def help (flag : Flag) : List String :=
  let remarks := flag.purpose.toList ++ flag.defaultValue.toList.map fun v => s!"[default: {v}]"
  [s!"      --{flag.name} <{flag.placeholder}>", "          " ++ " ".intercalate remarks]

end Flag

/-- The lines that are printed when help is asked for. -/
def helpLines : List String :=
  ["Persistent-memory key-value tier, driven by commands on stdin", "",
    "Usage: rustpmemkv [OPTIONS]", "", "Options:"]
  ++ Flag.all.flatMap Flag.help ++ ["  -h, --help", "          Print help"]

/-! ## Values -/

/-- A number as the value of a flag. -/
def numberValue (value : String) : Except ArgumentFault Nat :=
  match Text.wordOfNumeral? value with
  | some n => .ok n
  | none => .error .valueValidation

/-- The arguments with the value of one more flag. -/
def Arguments.give (a : Arguments) (flag : Flag) (value : String) :
    Except ArgumentFault Arguments :=
  match flag with
  | .dataDir =>
    if value.isEmpty then .error .invalidValue else .ok { a with dataDir := some value }
  | .durability =>
    match Durability.ofText value with
    | .ok durability => .ok { a with durability := durability }
    | .error _ => .error .valueValidation
  | .policy =>
    match PolicyKind.ofText value with
    | .ok policy => .ok { a with policy := policy }
    | .error _ => .error .valueValidation
  | .maxEntries => return { a with maxEntries := some (← numberValue value) }
  | .evictBatch => return { a with evictBatch := ← numberValue value }
  | .victimFlushThreshold => return { a with victimFlushThreshold := ← numberValue value }
  | .flushIntervalMs => return { a with flushIntervalMs := ← numberValue value }
  | .readLatencyNs => return { a with readLatencyNs := ← numberValue value }
  | .writeLatencyNs => return { a with writeLatencyNs := ← numberValue value }
  | .seed => return { a with seed := some (UInt64.ofNat (← numberValue value)) }

/-- A flag whose value is not settled yet: it may still be missing. -/
structure OpenFlag where
  flag : Flag
  value : Option String := none
  deriving DecidableEq, Repr

/-- What has been read of the arguments. -/
structure ArgumentState where
  arguments : Arguments := {}
  seen : List Flag := []
  pending : Option OpenFlag := none
  deriving DecidableEq, Repr

/-- Takes a flag with its value. -/
def ArgumentState.accept (s : ArgumentState) (flag : Flag) (value : String) :
    Except ArgumentFault ArgumentState :=
  if flag ∈ s.seen then .error .argumentConflict
  else return { s with arguments := ← s.arguments.give flag value, seen := flag :: s.seen }

/-- Settles the flag that has not been settled yet. -/
def ArgumentState.settle (s : ArgumentState) : Except ArgumentFault ArgumentState :=
  match s.pending with
  | none => .ok s
  | some { flag, value := some value } => { s with pending := none }.accept flag value
  | some { value := none, .. } => .error .invalidValue

/-- The name of a long flag and the value after an equals sign. -/
def splitFlag (word : String) : String × Option String :=
  let body := (word.toList).drop 2
  match body.span (· ≠ '=') with
  | (name, _ :: value) => (String.ofList name, some (String.ofList value))
  | (name, []) => (String.ofList name, none)

/-- Takes a word that does not look like a flag. -/
def ArgumentState.word (s : ArgumentState) (word : String) :
    Except ArgumentFault ArgumentState :=
  match s.pending with
  | some { flag, value := none } => .ok { s with pending := some { flag, value := some word } }
  | _ => .error .unknownArgument

/-- Takes the flag that asks for help. -/
def ArgumentState.help (s : ArgumentState) : Except ArgumentFault ArgumentState := do
  let _ ← s.settle
  .error .displayHelp

/-- Takes a long flag, with a value or waiting for one. -/
def ArgumentState.flag (s : ArgumentState) (name : String) (value : Option String) :
    Except ArgumentFault ArgumentState :=
  match Flag.ofName name, value with
  | none, none => if name = "help" then s.help else .error .unknownArgument
  | none, some _ => .error (if name = "help" then .tooManyValues else .unknownArgument)
  | some flag, some value => do (← s.settle).accept flag value
  | some flag, none => do return { ← s.settle with pending := some { flag } }

/-- Reads the arguments from left to right. After `--` no word is a flag, and no other word is
expected. -/
def parseFrom (s : ArgumentState) : List String → Except ArgumentFault ArgumentState
  | [] => s.settle
  | "--" :: rest => if rest.isEmpty then s.settle else .error .unknownArgument
  | "-" :: rest => do parseFrom (← s.word "-") rest
  | word :: rest =>
    if word.startsWith "--" then do
      let (name, value) := splitFlag word
      parseFrom (← s.flag name value) rest
    else if word.startsWith "-h" then s.help
    else if word.startsWith "-" then .error .unknownArgument
    else do parseFrom (← s.word word) rest

/-- Reads the arguments of the program. -/
def parseArguments (words : List String) : Except ArgumentFault Arguments := do
  return (← parseFrom {} words).arguments

/-- The settings that arguments stand for. -/
def Arguments.settings (a : Arguments) : Settings :=
  let base := match a.dataDir with
    | some directory => Settings.inDirectory directory
    | none => {}
  { base with
    durability := a.durability
    policy := a.policy
    maxEntries := a.maxEntries
    evictBatch := a.evictBatch
    victimThreshold := a.victimFlushThreshold
    flushInterval := a.flushIntervalMs
    readLatency := a.readLatencyNs
    writeLatency := a.writeLatencyNs
    seed := a.seed }

end PersistentTier.Shell
