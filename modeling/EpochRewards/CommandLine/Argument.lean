import EpochRewards.Json.Reader
import EpochRewards.Plan

/-!
The arguments of the program.

An option is followed by its value or joined to it by an equals sign. The value of an option is
checked once the next one begins or the arguments end, so a word that is no argument at all is
reported before it.
-/

namespace EpochRewards.CommandLine

/-- Why arguments are not understood. -/
inductive UsageError where
  | unknownArgument
  | invalidValue
  /-- an option without a value, or an empty path -/
  | missingValue
  /-- a value joined to an option that takes none -/
  | unexpectedValue
  /-- an option that may not be repeated -/
  | repeated
  | missingArgument
  /-- no mistake, but the arguments ask for help -/
  | help
  deriving DecidableEq

def UsageError.message : UsageError → String
  | unknownArgument => "unknown argument"
  | invalidValue => "a value is not valid"
  | missingValue => "an option has no value"
  | unexpectedValue => "a flag takes no value"
  | repeated => "an option is given twice"
  | missingArgument => "a required option is missing"
  | help => "help"

/-- The options that take a value. -/
inductive Setting where
  | network
  | snapshotDirectory
  | outputDirectory
  | initSlot
  | finalSlot
  | workers
  | batches
  | batchSize
  | fetchRetries
  | retryDelay
  | preference
  | poolsFile
  | validators
  deriving DecidableEq

namespace Setting

def all : List Setting :=
  [network, snapshotDirectory, outputDirectory, initSlot, finalSlot, workers, batches, batchSize,
    fetchRetries, retryDelay, preference, poolsFile, validators]

def name : Setting → String
  | network => "network"
  | snapshotDirectory => "snapshot-directory"
  | outputDirectory => "output-directory"
  | initSlot => "init-slot"
  | finalSlot => "final-slot"
  | workers => "workers"
  | batches => "batches"
  | batchSize => "batch-size"
  | fetchRetries => "state-fetch-retries"
  | retryDelay => "state-fetch-retry-delay"
  | preference => "external-reward-preference"
  | poolsFile => "pools-file"
  | validators => "validator-indices"

def ofName? (s : String) : Option Setting := all.find? (·.name == s)

end Setting

/-- The flag that asks for stored rows to be replaced. -/
def replaceFlag : String := "rewrite"

def helpFlag : String := "help"

/-! ### Values -/

def digits? (cs : List Char) : Option Nat :=
  if !cs.isEmpty && cs.all Json.isDigit then some (Json.digitsValue cs) else none

/-- Decimal digits after an optional plus sign. -/
def unsigned? (s : String) : Option Nat :=
  match s.toList with
  | '+' :: cs => digits? cs
  | cs => digits? cs

def parseWord (s : String) : Except UsageError Nat :=
  match unsigned? s with
  | some n => if n < Word.bound then .ok n else .error .invalidValue
  | none => .error .invalidValue

/-- A number below `2 ^ 32`, where zero may carry a minus sign. -/
def parseWord32 (s : String) : Except UsageError Nat :=
  let n? := match s.toList with
    | '-' :: cs => (digits? cs).filter (· == 0)
    | _ => unsigned? s
  match n? with
  | some n => if n < 4294967296 then .ok n else .error .invalidValue
  | none => .error .invalidValue

def parsePositive (s : String) : Except UsageError Positive := do
  match Positive.ofNat? (← parseWord s) with
  | some n => .ok n
  | none => .error .invalidValue

def parsePath (s : String) : Except UsageError String :=
  if s.isEmpty then .error .missingValue else .ok s

def parsePreference (s : String) : Except UsageError ReportPreference :=
  match ReportPreference.ofName? s with
  | some p => .ok p
  | none => .error .invalidValue

/-- Words separated by commas. -/
def parseWords (s : String) : Except UsageError (List Nat) := (s.splitOn ",").mapM parseWord

/-! ### Arguments -/

structure Arguments where
  network : Option String
  snapshotDirectory : Option String
  outputDirectory : Option String
  initSlot : Option Slot
  finalSlot : Option Slot
  workers : Option Nat
  batches : Option Positive
  batchSize : Option Nat
  fetchRetries : Option Nat
  retryDelay : Option Nat
  replaceRows : Bool
  preference : Option ReportPreference
  poolsFile : Option String
  validators : List ValidatorIndex
  deriving DecidableEq

def Arguments.none : Arguments :=
  ⟨.none, .none, .none, .none, .none, .none, .none, .none, .none, .none, false, .none, .none, []⟩

/-- The value of an option that has not been given before. -/
def once {α : Type} (given : Option α) (value : Except UsageError α) :
    Except UsageError (Option α) :=
  match given with
  | some _ => .error .repeated
  | none => some <$> value

/-- Takes the value of an option. -/
def Arguments.accept (a : Arguments) (value : String) : Setting → Except UsageError Arguments
  | .network => do return { a with network := ← once a.network (.ok value) }
  | .snapshotDirectory => do
    return { a with snapshotDirectory := ← once a.snapshotDirectory (parsePath value) }
  | .outputDirectory => do
    return { a with outputDirectory := ← once a.outputDirectory (parsePath value) }
  | .initSlot => do return { a with initSlot := ← once a.initSlot (parseWord value) }
  | .finalSlot => do return { a with finalSlot := ← once a.finalSlot (parseWord value) }
  | .workers => do return { a with workers := ← once a.workers (parseWord value) }
  | .batches => do return { a with batches := ← once a.batches (parsePositive value) }
  | .batchSize => do return { a with batchSize := ← once a.batchSize (parseWord value) }
  | .fetchRetries => do return { a with fetchRetries := ← once a.fetchRetries (parseWord32 value) }
  | .retryDelay => do return { a with retryDelay := ← once a.retryDelay (parseWord value) }
  | .preference => do return { a with preference := ← once a.preference (parsePreference value) }
  | .poolsFile => do return { a with poolsFile := ← once a.poolsFile (parsePath value) }
  | .validators => do return { a with validators := a.validators ++ (← parseWords value) }

/-- The arguments so far and the option at the end of them, with its value if that has been
seen. -/
structure Reading where
  arguments : Arguments
  pending : Option (Setting × Option String)

namespace Reading

def settle (r : Reading) : Except UsageError Arguments :=
  match r.pending with
  | none => .ok r.arguments
  | some (_, none) => .error .missingValue
  | some (s, some value) => r.arguments.accept value s

/-- An argument with two leading dashes. -/
def long (r : Reading) (name : String) (value : Option String) : Except UsageError Reading := do
  match Setting.ofName? name, value with
  | some s, none => return ⟨← r.settle, some (s, none)⟩
  | some s, some value => return ⟨← (← r.settle).accept value s, none⟩
  | none, _ =>
    if name ≠ replaceFlag ∧ name ≠ helpFlag then throw .unknownArgument
    else if value.isSome then throw .unexpectedValue
    else
      let arguments ← r.settle
      if name = helpFlag then throw .help
      else if arguments.replaceRows then throw .repeated
      else return ⟨{ arguments with replaceRows := true }, none⟩

/-- An argument with one leading dash, of which only that for help is known. -/
def short (r : Reading) (letter : Char) : Except UsageError Reading := do
  if letter ≠ 'h' then throw .unknownArgument
  let _ ← r.settle
  throw .help

/-- A word without a leading dash, which has to be the value of an option. -/
def word (r : Reading) (s : String) : Except UsageError Reading :=
  match r.pending with
  | some (setting, none) => .ok { r with pending := some (setting, some s) }
  | _ => .error .unknownArgument

/-- The part before the first equals sign and the one after it. -/
def splitValue (cs : List Char) : String × Option String :=
  (String.ofList (cs.takeWhile (· != '=')),
    match cs.dropWhile (· != '=') with
    | [] => none
    | _ :: value => some (String.ofList value))

/-- The next argument, which is not the mark that ends the options. -/
def step (r : Reading) (argument : String) : Except UsageError Reading :=
  match argument.toList with
  | '-' :: '-' :: cs =>
    let (name, value) := splitValue cs
    r.long name value
  | '-' :: c :: _ => r.short c
  | _ => r.word argument

/-- Nothing may follow the mark that ends the options. -/
def run (r : Reading) : List String → Except UsageError Arguments
  | [] => r.settle
  | argument :: rest =>
    if argument = "--" then
      if rest.isEmpty then r.settle else .error .unknownArgument
    else do (← r.step argument).run rest

end Reading

end EpochRewards.CommandLine
