import EpochRewards.Chain
import EpochRewards.Source

/-!
Archives: a chain taken apart into states, duties, blocks and reports.

A slot without a proposed block has no block at all, and reports are kept apart from blocks.
-/

namespace EpochRewards

structure Archive where
  states : Ledger Snapshot
  duties : Ledger Duties
  blocks : Ledger Block
  reports : Ledger RewardReport
  /-- the slots whose states cannot be reached -/
  failing : List Slot
  deriving DecidableEq

namespace Archive

def empty : Archive := ⟨.empty, .empty, .empty, .empty, []⟩

/-- What a chain serves; of several parts under one number, the last. -/
def ofChain (c : Chain) : Archive where
  states := .ofList (c.states.map fun s => (s.slot, { s with blocks := [], duties := .empty }))
  duties := .ofList (c.states.map fun s => (s.epoch, s.duties))
  blocks := .ofList ((c.states.flatMap (·.proposedBlocks)).map fun b =>
    (b.slot, { b with report := none }))
  reports := .ofList ((c.states.flatMap (·.proposedBlocks)).filterMap fun b =>
    b.report.map (b.slot, ·))
  failing := []

def lookup {α : Type} (l : Ledger α) (r : Resource) (id : Nat) : Fetched α :=
  match l.get? id with
  | some a => .ok a
  | none => .error (.notFound r id)

def state (a : Archive) (slot : Slot) : Fetched Snapshot :=
  if a.failing.contains slot then .error (.transport .state slot "connection refused")
  else lookup a.states .state slot

/-- An archive gives the same answer every time. -/
def source (a : Archive) : Source where
  block slot _ := lookup a.blocks .block slot
  report slot _ := lookup a.reports .report slot
  duties epoch _ := lookup a.duties .duties epoch
  state slot _ := a.state slot

end Archive

end EpochRewards
