import EpochRewards.Row

/-!
One value per table.
-/

namespace EpochRewards

structure PerTable (β : Type) where
  validatorRewards : β
  epochSummary : β
  proposerDuties : β
  blocks : β
  attestations : β
  withdrawals : β
  deriving DecidableEq

namespace PerTable

variable {β : Type}

/-- The same value for every table. -/
def fill (b : β) : PerTable β := ⟨b, b, b, b, b, b⟩

def get (p : PerTable β) : Table → β
  | .validatorRewards => p.validatorRewards
  | .epochSummary => p.epochSummary
  | .proposerDuties => p.proposerDuties
  | .blocks => p.blocks
  | .attestations => p.attestations
  | .withdrawals => p.withdrawals

def set (p : PerTable β) (t : Table) (b : β) : PerTable β :=
  match t with
  | .validatorRewards => { p with validatorRewards := b }
  | .epochSummary => { p with epochSummary := b }
  | .proposerDuties => { p with proposerDuties := b }
  | .blocks => { p with blocks := b }
  | .attestations => { p with attestations := b }
  | .withdrawals => { p with withdrawals := b }

@[simp] theorem get_fill (b : β) (t : Table) : (fill b).get t = b := by cases t <;> rfl

@[simp] theorem get_set (p : PerTable β) (t u : Table) (b : β) :
    (p.set t b).get u = if u = t then b else p.get u := by cases t <;> cases u <;> rfl

end PerTable

end EpochRewards
