import EpochRewards.Reward.Bundle

/-!
Inclusion opportunities: how soon after a slot a block was there to include its votes.
-/

namespace EpochRewards.Bundle

def indexOpportunity (slot : Slot) : Pass Unit := do
  let b ← get
  let delay ← b.window.scan slot b.network.slotsPerEpoch.val 1
  modify fun b => { b with opportunities := b.opportunities.insert slot delay }

/-- The slots in which the committees of the first epoch vote, in ascending order. -/
def dutySlots (w : Window) : List Slot :=
  (Ledger.ofList (w.prev.duties.committees.map fun c => (c.slot, ()))).keys

/-- Looks up the first opportunity of every duty slot; none matters after an epoch. -/
def indexOpportunities : Pass Unit := do
  (dutySlots (← get).window).forM indexOpportunity

/-- The delay of the first proposed block within `limit` slots after `slot`. -/
def firstOpportunity (b : Bundle) (slot : Slot) (limit : Nat) : Calc (Option Nat) := do
  let delay ← match b.opportunities.get? slot with
    | some delay => pure delay
    | none => b.window.scan slot limit 1
  return delay.filter (· ≤ limit)

/-- Whether a block was there to include the validator's vote within a limit. -/
def isIncludable (b : Bundle) (v : ValidatorIndex) (limit : Calc Nat) : Calc Bool :=
  match b.window.prev.duties.voteSlot? v with
  | none => return false
  | some slot => do return (← b.firstOpportunity slot (← limit)).isSome

def isFlagPossible (b : Bundle) (v : ValidatorIndex) (flag : Flag) : Calc Bool :=
  b.isIncludable v (pure (b.delayLimit flag))

end EpochRewards.Bundle
