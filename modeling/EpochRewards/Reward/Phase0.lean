import EpochRewards.Reward.Inclusion
import EpochRewards.Reward.Opportunity
import EpochRewards.Reward.Record
import EpochRewards.Reward.Slashing

/-!
Accounting before Altair.

A vote is rewarded for each checkpoint it matches, with a further component that shrinks with
the delay of its inclusion and a share of it for the including proposer.
-/

namespace EpochRewards.Phase0

open EpochRewards.Bundle

/-- The whistleblower reward's share that goes to the proposer. -/
def proposerShare (net : Network) : ShareRule := fun reward =>
  return reward / net.proposerQuotient.val

def baseReward (b : Bundle) (v : ValidatorIndex) : Calc Gwei := do
  let validator ← b.window.current.registered v
  b.network.phase0BaseReward validator.effectiveBalance b.currentActiveBalance

/-- A vote for the right source pays the proposer that includes it first. -/
def payInclusion (credit : Credit) : Pass Unit := do
  if credit.flags.source then
    let b ← get
    let reward := (← baseReward b credit.validator) / b.network.proposerQuotient.val
    creditProposer credit.proposer reward
    addManualReward credit.slot reward

def processInclusionDelays : Pass Unit := do
  (← processAttestations).forM payInclusion

/-- The reward for one flag: the base reward in proportion to the balance that earned it. -/
def flagReward (b : Bundle) (v : ValidatorIndex) (base : Gwei) (total : Gwei) (flag : Flag) :
    Calc Gwei := do
  if ← b.isFlagPossible v flag then
    let increment := b.network.balanceIncrement.val
    let product ← Word.mul base (b.attestingBalance.get flag / increment)
    Word.add total (← Word.div product (b.currentActiveBalance / increment))
  else return total

/-- The reward for the earliest inclusion there was an opportunity for. -/
def delayReward (b : Bundle) (v : ValidatorIndex) (base : Gwei) (total : Gwei) : Calc Gwei := do
  match b.window.prev.duties.voteSlot? v with
  | none => return total
  | some slot =>
    match ← b.firstOpportunity slot b.network.slotsPerEpoch.val with
    | none => return total
    | some delay =>
      let rest ← Word.sub base (base / b.network.proposerQuotient.val)
      Word.add total (← Word.div rest delay)

def maxReward (b : Bundle) (v : ValidatorIndex) : Calc Gwei := do
  let base ← baseReward b v
  let flags ← Flag.all.foldlM (flagReward b v base) 0
  delayReward b v base flags

def processMaxReward (v : ValidatorIndex) : Pass Unit := do
  let b ← get
  let _ ← b.tally v
  addAttesterReward v (← maxReward b v)

def processMaxRewards : Pass Unit := do
  (← get).analysedValidators.forM processMaxReward

def prepare : Pass Unit := do
  let b ← get
  if b.window.isRewarded then
    processSlashings (proposerShare b.network)
    indexOpportunities
    processInclusionDelays
    processMaxRewards

def record (b : Bundle) (v : ValidatorIndex) : Calc ValidatorRecord := do
  let t ← b.tally v
  let (reportedProposer, computedProposer) ← b.proposerRewards v b.window.blocksBeforeNext
  let baseReward ← match baseReward b v with
    | .error (.error _) => pure 0
    | base => base
  b.record v {
    attester := t.maxAttesterReward
    sync := 0
    reportedProposer, computedProposer
    slashing := b.maxSlashingRewards.amount v
    baseReward
    inSyncCommittee := false }

end EpochRewards.Phase0
