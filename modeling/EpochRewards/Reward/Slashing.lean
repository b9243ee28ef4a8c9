import EpochRewards.Reward.Bundle

/-!
Rewards for slashing reports in the last snapshot's blocks.

The whistleblower is always the proposer that includes the report, so both parts of the
reward are booked to the same validator.
-/

namespace EpochRewards

structure SlashingReward where
  proposer : Gwei
  whistleblower : Gwei
  deriving DecidableEq

/-- How much of a whistleblower reward goes to the proposer. -/
abbrev ShareRule := Gwei → Except Fault Gwei

def SlashingReward.split (reward : Gwei) (share : ShareRule) : Except Fault SlashingReward := do
  let proposer ← share reward
  return ⟨proposer, reward - proposer⟩

namespace Bundle

def rewardSlashing (share : ShareRule) (block : Block) (slashed : ValidatorIndex) :
    Pass Unit := do
  let b ← get
  let validator ← b.window.next.registered slashed
  let reward := validator.effectiveBalance / b.network.whistleblowerQuotient.val
  let split ← SlashingReward.split reward share
  creditSlashing block.proposer split.proposer
  creditSlashing block.proposer split.whistleblower

def processSlashings (share : ShareRule) : Pass Unit := do
  (← get).window.next.proposedBlocks.forM fun block =>
    block.slashedIndices.forM (rewardSlashing share block)

end Bundle

end EpochRewards
