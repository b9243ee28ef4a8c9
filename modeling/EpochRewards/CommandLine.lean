import EpochRewards.CommandLine.Argument
import EpochRewards.Json.Reader

/-!
From arguments to an assignment: the network, the plan and the directories of a run.
-/

namespace EpochRewards.CommandLine

/-- Arguments with everything that has to be given. -/
structure Invocation where
  arguments : Arguments
  snapshotDirectory : String
  outputDirectory : String
  initSlot : Slot
  finalSlot : Slot
  deriving DecidableEq

def Invocation.ofArguments (arguments : Arguments) : Except UsageError Invocation :=
  match arguments.snapshotDirectory, arguments.outputDirectory, arguments.initSlot,
    arguments.finalSlot with
  | some snapshotDirectory, some outputDirectory, some initSlot, some finalSlot =>
    .ok { arguments, snapshotDirectory, outputDirectory, initSlot, finalSlot }
  | _, _, _, _ => .error .missingArgument

def parse (arguments : List String) : Except UsageError Invocation := do
  Invocation.ofArguments (← (⟨.none, none⟩ : Reading).run arguments)

/-- Why an invocation that is understood cannot be carried out. -/
inductive SetupError where
  | unknownNetwork (name : String)
  | plan (e : RunError)
  /-- the file of the pools cannot be read -/
  | unreadablePools
  /-- the file of the pools holds something else -/
  | undecodablePools
  deriving DecidableEq

def SetupError.message : SetupError → String
  | unknownNetwork name => s!"unknown network: {name}"
  | plan e => e.message
  | unreadablePools => "the pools cannot be read"
  | undecodablePools => "the pools cannot be decoded"

structure Assignment where
  network : Network
  plan : Plan
  snapshotDirectory : String
  outputDirectory : String
  deriving DecidableEq

namespace Invocation

def defaultNetwork : String := "mainnet"

/-- The pools in a file, none if no file is given. -/
def pools (file : Option String) (read? : String → Option String) :
    Except SetupError (List Pool) :=
  match file with
  | none => .ok []
  | some path =>
    match read? path with
    | none => .error .unreadablePools
    | some text =>
      match Json.parse text >>= (Codec.list Pool.codec).decode with
      | some pools => .ok pools
      | none => .error .undecodablePools

def assignment (i : Invocation) (read? : String → Option String) :
    Except SetupError Assignment := do
  let a := i.arguments
  let name := a.network.getD defaultNetwork
  let network ← match Network.ofName? name with
    | some network => pure network
    | none => throw (.unknownNetwork name)
  let workers ← match Positive.ofNat? (a.workers.getD Plan.default.workers.val) with
    | some workers => pure workers
    | none => throw (.plan .noWorkers)
  let pools ← pools a.poolsFile read?
  let plan : Plan :=
    { Plan.default with
      initSlot := i.initSlot
      finalSlot := i.finalSlot
      workers
      batches := a.batches
      batchSize := a.batchSize.getD Plan.default.batchSize
      fetchRetries := a.fetchRetries.getD Plan.default.fetchRetries
      retryDelay := a.retryDelay.getD Plan.default.retryDelay
      replaceRows := a.replaceRows
      preference := a.preference.getD Plan.default.preference
      pools
      validators := a.validators }
  plan.validate.mapError .plan
  return ⟨network, plan, i.snapshotDirectory, i.outputDirectory⟩

end Invocation

end EpochRewards.CommandLine
