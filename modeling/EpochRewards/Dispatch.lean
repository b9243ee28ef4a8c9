import EpochRewards.Reward.Accounting
import EpochRewards.SlotRange
import EpochRewards.Writer

/-!
Dispatching a window: the rows about its first epoch go to the writer, the validators of its
last epoch go to the workers as tasks.

Where stored rows are to be replaced, the slots that get new rows are cleared first.
-/

namespace EpochRewards

/-- Validators whose records are resolved one after another against one bundle. -/
structure ValidatorTask where
  validators : List ValidatorIndex
  bundle : Bundle
  pool : Option String
  deriving DecidableEq

inductive Dispatch where
  | message (m : Message)
  | task (t : ValidatorTask)
  /-- nothing more comes of the window -/
  | done
  deriving DecidableEq

structure DispatchReport where
  /-- requested epochs whose validators were handed to the workers -/
  processed : List Epoch
  /-- the last epochs of the windows that could not be accounted -/
  abandoned : List Epoch
  taskCount : Nat
  deriving DecidableEq

def DispatchReport.empty : DispatchReport := ⟨[], [], 0⟩

/-! ### Batches -/

/-- Cuts pieces of the given sizes off a list, up to the first one that is missing or empty. -/
def cut {α : Type} : List Nat → List α → List (List α)
  | [], _ => []
  | n :: sizes, xs =>
    if n ≤ xs.length ∧ 0 < n then xs.take n :: cut sizes (xs.drop n) else []

/-- The sizes of `count` batches of `n` things in all, which differ by one at most. -/
def batchSizes (count n : Nat) : List Nat :=
  (List.range count).map fun i => n / count + if i < n % count then 1 else 0

/-- At most `count` batches, one after another and none of them empty. -/
def splitEvenly {α : Type} (count : Nat) (xs : List α) : List (List α) :=
  cut (batchSizes (min (max count 1) (max xs.length 1)) xs.length) xs

namespace Plan

/-! ### Rows of the first epoch -/

/-- The tables with rows of single slots. -/
def blockTables : List Table := [.blocks, .attestations, .withdrawals]

def clearings (summary : EpochSummary) (duties : List ProposerDuty)
    (blocks : List BlockSummary) : List Message :=
  .delete .epochSummary summary.slot
    :: duties.map (fun d => .delete .proposerDuties d.slot)
    ++ blocks.flatMap fun b => blockTables.map fun t => .delete t b.slot

def epochMessages (p : Plan) (b : Bundle) : Except Fault (List Message) := do
  let summary ← b.epochSummary
  let duties := b.proposerDuties
  let blocks ← b.blockSummaries
  let rows := .summary summary :: duties.map .duty ++ blocks.map .block
    ++ b.attestationRecords.map .attestation ++ b.withdrawalRecords.map .withdrawal
  return (if p.replaceRows then clearings summary duties blocks else []) ++ rows.map .row

/-! ### Validators of the last epoch -/

/-- The validators that the window is about and the plan covers. -/
def analysed (p : Plan) (b : Bundle) : List ValidatorIndex :=
  b.analysedValidators.filter p.covers

/-- A task per pool, or batches if there are no pools. -/
def validatorTasks (p : Plan) (b : Bundle) : List ValidatorTask :=
  let analysed := p.analysed b
  if p.pools.isEmpty then (splitEvenly p.batchCount.val analysed).map (⟨·, b, none⟩)
  else p.pools.map fun pool => ⟨pool.validators.filter analysed.contains, b, some pool.name⟩

def validatorDispatches (p : Plan) (b : Bundle) : List Dispatch :=
  (if p.replaceRows then [.message (.delete .validatorRewards b.window.next.slot)] else [])
    ++ (p.validatorTasks b).map .task

/-! ### Windows -/

/-- What a bundle gives rise to within the range, in order. -/
def dispatches (p : Plan) (r : SlotRange) (b : Bundle) : Except Fault (List Dispatch) := do
  let messages ← if r.writesEpochRows b.window then p.epochMessages b else pure []
  return messages.map .message
    ++ if r.writesValidatorRows b.window then p.validatorDispatches b else []

def countTasks (ds : List Dispatch) : Nat :=
  ds.countP fun
    | .task _ => true
    | _ => false

/-- Accounts a window. One whose bundle fails is abandoned; a fault in the rows about its first
epoch is not contained. -/
def process (p : Plan) (net : Network) (r : SlotRange) (report : DispatchReport) (w : Window) :
    Except Fault (DispatchReport × List Dispatch) :=
  let epoch := w.next.epoch
  match Bundle.build net p.preference w with
  | .error _ => .ok ({ report with abandoned := report.abandoned ++ [epoch] }, [.done])
  | .ok b => do
    let ds ← p.dispatches r b
    let processed :=
      if r.analysedEpochs.contains epoch then report.processed ++ [epoch] else report.processed
    return ({ report with processed, taskCount := report.taskCount + countTasks ds }, ds ++ [.done])

/-- Accounts windows one after another. -/
def processAll (p : Plan) (net : Network) (r : SlotRange) (ws : List Window) :
    Except Fault (DispatchReport × List Dispatch) :=
  ws.foldlM
    (fun (report, ds) w => do
      let (report, more) ← p.process net r report w
      return (report, ds ++ more))
    (.empty, [])

end Plan

end EpochRewards
