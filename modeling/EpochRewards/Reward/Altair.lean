import EpochRewards.Reward.Inclusion
import EpochRewards.Reward.Opportunity
import EpochRewards.Reward.Record
import EpochRewards.Reward.Slashing

/-!
Accounting since Altair: participation flags, the sync committee, and the proposer's share
of both.
-/

namespace EpochRewards.Altair

open EpochRewards.Bundle

/-- The whistleblower reward's share that goes to the proposer. -/
def proposerShare : ShareRule := fun reward => do
  return (← Word.mul reward proposerWeight) / weightDenominator

def baseReward (b : Bundle) (v : ValidatorIndex) (activeBalance : Gwei) : Calc Gwei := do
  let validator ← b.window.next.registered v
  b.network.baseReward validator.effectiveBalance
    (← b.network.baseRewardPerIncrement activeBalance)

/-! ### Sync committee -/

/-- The reward of a seat for a slot in which everybody takes part. -/
def seatReward (b : Bundle) : Except Fault Gwei := do
  let net := b.network
  let increments := b.nextActiveBalance / net.balanceIncrement.val
  let total ← Word.mul (← net.baseRewardPerIncrement b.nextActiveBalance) increments
  return (← Word.mul total syncWeight) / weightDenominator / net.slotsPerEpoch.val
    / net.syncCommitteeSize.val

def paySyncAggregate (perBit : Gwei) (block : Block) : Pass Unit := do
  match block.syncAggregate with
  | none => return
  | some aggregate => payProposer block (← Word.mul perBit aggregate.bits.countOnes)

def processSyncAggregates : Pass Unit := do
  let b ← get
  let perBit := (← Word.mul (← seatReward b) proposerWeight) / (weightDenominator - proposerWeight)
  b.window.next.proposedBlocks.forM (paySyncAggregate perBit)

/-- The holder of a seat: of several validators with its key, the last. -/
def seatHolder (s : Snapshot) (key : PublicKey) : Calc ValidatorIndex :=
  ((s.validators.zipIdx.reverse.find? fun (v, _) => v.key == key).map (·.2)).orFail
    (.syncMemberNotFound key)

def rewardSeat (reward : Gwei) (key : PublicKey) : Pass Unit := do
  creditSync (← seatHolder (← get).window.next key) reward

/-- Every seat earns its reward for each slot that was not missed. -/
def processSyncCommittee : Pass Unit := do
  let b ← get
  match b.window.next.syncCommittee with
  | none => return
  | some committee =>
    let rewarded := b.network.slotsPerEpoch.val - b.window.next.missedSlots.length
    let reward ← Word.mul (← seatReward b) rewarded
    committee.keys.forM (rewardSeat reward)

/-! ### Votes included in the last epoch -/

/-- The flags that votes have earned so far, by target epoch and validator. -/
abbrev Earned := Ledger (Ledger Flags)

def Earned.get (e : Earned) (epoch : Epoch) (v : ValidatorIndex) : Flags :=
  ((e.get? epoch >>= (·.get? v))).getD .none

def Earned.set (e : Earned) (epoch : Epoch) (v : ValidatorIndex) (f : Flags) : Earned :=
  e.insert epoch (((e.get? epoch).getD .empty).insert v f)

/-- The flags of a vote that are new for its validator. -/
def newFlags (earned flags : Flags) : List Flag :=
  Flag.all.filter fun f => flags.has f && !earned.has f

/-- What the including proposer is paid for, in units of the base reward's weight. -/
def addFlagWeight (b : Bundle) (v : ValidatorIndex) (numerator : Nat) (flag : Flag) :
    Calc Nat := do
  let base ← baseReward b v b.nextActiveBalance
  Word.add numerator (← Word.mul base flag.weight)

/-- One member's vote: its new flags are paid for and noted as earned. -/
def includeVote (block : Block) (epoch : Epoch) (flags : Flags) (acc : Earned × Nat)
    (v : ValidatorIndex) : Pass (Earned × Nat) := do
  let (earned, numerator) := acc
  let before := earned.get epoch v
  let fresh := newFlags before flags
  let b ← get
  let numerator ← (fresh.foldlM (addFlagWeight b v) numerator : Calc Nat)
  countVote block.slot
  if !fresh.isEmpty then countNewVote block.slot
  return (earned.set epoch v (fresh.foldl Flags.set before), numerator)

/-- What one unit of weighted base reward is divided by to pay the proposer. -/
def proposerDenominator : Nat :=
  (weightDenominator - proposerWeight) * weightDenominator / proposerWeight

/-- The duties and the source that votes for an epoch answer to, for the last two epochs. -/
def votedEpoch? (w : Window) (epoch : Epoch) : Option (Duties × Checkpoint) :=
  if epoch = w.current.epoch then some (w.current.duties, w.current.currentJustified)
  else if epoch = w.next.epoch then some (w.next.duties, w.next.currentJustified)
  else none

def includeAttestation (block : Block) (earned : Earned) (a : Attestation) : Pass Earned := do
  let b ← get
  let net := b.network
  let next := b.window.next
  let epoch := net.epochOf a.data.slot
  match votedEpoch? b.window epoch with
  | none => return earned
  | some (duties, source) =>
    if a.data.slot < block.slot then
      let delay := block.slot - a.data.slot
      let root ← next.blockRootOf net epoch
      let head ← next.blockRootAt net a.data.slot
      let flags := b.voteFlags a.data delay ⟨source, ⟨epoch, root⟩⟩ head
      let members ← duties.attesters a
      let (earned, numerator) ← members.foldlM (includeVote block epoch flags) (earned, 0)
      payProposer block (numerator / proposerDenominator)
      return earned
    else return earned

def includeBlock (earned : Earned) (block : Block) : Pass Earned :=
  block.attestations.foldlM (includeAttestation block) earned

def processIncludedVotes : Pass Unit := do
  let _ ← (← get).window.next.proposedBlocks.foldlM includeBlock .empty

/-! ### Maxima -/

/-- The reward for one flag in proportion to the balance that earned it. -/
def flagReward (b : Bundle) (v : ValidatorIndex) (base : Gwei) (total : Gwei) (flag : Flag) :
    Calc Gwei := do
  if ← b.isFlagPossible v flag then
    let increment := b.network.balanceIncrement.val
    let weighted ← Word.mul flag.weight base
    let numerator ← Word.mul weighted (b.attestingBalance.get flag / increment)
    let denominator ← Word.mul (b.currentActiveBalance / increment) weightDenominator
    Word.add total (← Word.div numerator denominator)
  else return total

def processMaxReward (perIncrement : Gwei) (v : ValidatorIndex) : Pass Unit := do
  let b ← get
  let _ ← b.tally v
  let validator ← b.window.current.registered v
  let base ← b.network.baseReward validator.effectiveBalance perIncrement
  let reward ← (Flag.all.foldlM (flagReward b v base) 0 : Calc Gwei)
  addAttesterReward v reward

def processMaxRewards : Pass Unit := do
  let b ← get
  let perIncrement ← b.network.baseRewardPerIncrement b.currentActiveBalance
  b.analysedValidators.forM (processMaxReward perIncrement)

def prepare : Pass Unit := do
  if (← get).window.isRewarded then
    processSlashings proposerShare
    processSyncAggregates
    indexOpportunities
    let _ ← processAttestations
    processIncludedVotes
    processMaxRewards
    processSyncCommittee

def record (b : Bundle) (v : ValidatorIndex) : Calc ValidatorRecord := do
  let t ← b.tally v
  let (reportedProposer, computedProposer) ← b.proposerRewards v b.window.next.blocks
  let baseReward ← match baseReward b v b.nextActiveBalance with
    | .error (.error _) => pure 0
    | base => base
  b.record v {
    attester := t.maxAttesterReward
    sync := b.maxSyncRewards.amount v
    reportedProposer, computedProposer
    slashing := b.maxSlashingRewards.amount v
    baseReward
    inSyncCommittee := b.maxSyncRewards.contains v }

end EpochRewards.Altair
