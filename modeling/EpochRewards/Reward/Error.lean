import EpochRewards.Snapshot

/-!
What can be wrong with the snapshots of a window.
-/

namespace EpochRewards

inductive RewardError where
  | attesterNotInCommittee (slot : Slot) (index position : Nat)
  | committeeNotFound (slot : Slot) (index : Nat)
  | slotOutOfRange (slot stateSlot : Slot)
  | unknownFlag (index : Nat)
  | validatorNotFound (v : ValidatorIndex)
  | blockNotInWindow (slot : Slot)
  | syncMemberNotFound (key : PublicKey)
  | validatorOutsideBundle (v : ValidatorIndex)
  /-- a change of balance that is no signed 64-bit integer -/
  | deltaOutOfRange
  deriving DecidableEq

def RewardError.message : RewardError → String
  | attesterNotInCommittee slot index position =>
    s!"aggregation bit {position} is outside committee {index} at slot {slot}"
  | committeeNotFound slot index => s!"no committee {index} at slot {slot}"
  | slotOutOfRange slot stateSlot =>
    s!"slot {slot} is outside the block roots kept by the state at slot {stateSlot}"
  | unknownFlag index => s!"unknown participation flag index {index}"
  | validatorNotFound v => s!"validator {v} is not in the registry"
  | blockNotInWindow slot => s!"slot {slot} has no block summary in the epoch window"
  | syncMemberNotFound key => "sync committee member " ++ key.toText ++ " is not in the registry"
  | validatorOutsideBundle v => s!"validator {v} is not covered by the metrics bundle"
  | deltaOutOfRange => "out of range integral type conversion attempted"

/-- Computations over snapshots. -/
abbrev Calc := Except (Failure RewardError)

end EpochRewards
