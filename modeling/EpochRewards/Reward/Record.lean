import EpochRewards.Reward.Bundle

/-!
The record of a validator and the rows that describe a window's first epoch.
-/

namespace EpochRewards

/-- The most that each component can have earned a validator. -/
structure RewardComponents where
  attester : Gwei
  sync : Gwei
  reportedProposer : Option Gwei
  computedProposer : Gwei
  slashing : Gwei
  baseReward : Gwei
  inSyncCommittee : Bool

namespace Bundle

/-- The withdrawals of a validator in the blocks of the last snapshot. -/
def withdrawn (w : Window) (v : ValidatorIndex) : Except Fault Gwei :=
  Word.sum (((w.next.blocks.flatMap (·.withdrawals)).filter (·.validator == v)).map (·.amount))

def signed? (delta : Int) : Calc Int :=
  if -Word.signedBound ≤ delta ∧ delta < Word.signedBound then return delta
  else .error (.error .deltaOutOfRange)

/-- The change of balance between the last two snapshots with withdrawals added back; zero
where no snapshot precedes the last. -/
def epochReward (b : Bundle) (v : ValidatorIndex) : Calc Int := do
  let w := b.window
  let after ← (w.next.balance? v).orFail (.validatorOutsideBundle v)
  if w.current.isPlaceholder then return 0
  let before := (w.current.balance? v).getD 0
  signed? ((after : Int) - before + (← withdrawn w v))

def addProposerReward (b : Bundle) (acc : Option Gwei × Gwei) (block : Block) :
    Except Fault (Option Gwei × Gwei) := do
  let (reported, computed) := acc
  let reported ← match block.report with
    | none => pure reported
    | some r => some <$> Word.add (reported.getD 0) r.proposerComponent
  let computed ← match b.blockTallies.get? block.slot with
    | none => pure computed
    | some t => Word.add computed t.manualReward
  return (reported, computed)

/-- The reported and the computed proposer rewards of a validator over `blocks`. -/
def proposerRewards (b : Bundle) (v : ValidatorIndex) (blocks : List Block) :
    Except Fault (Option Gwei × Gwei) :=
  (blocks.filter fun block => block.proposed && block.proposer == v).foldlM
    b.addProposerReward (none, 0)

def record (b : Bundle) (v : ValidatorIndex) (c : RewardComponents) : Calc ValidatorRecord := do
  let t ← b.tally v
  let next := b.window.next
  let validator ← next.registered v
  let proposerReward := b.preference.resolve c.reportedProposer c.computedProposer
  let total ← Word.add t.maxAttesterReward c.sync
  let total ← Word.add total proposerReward
  let maxReward ← Word.add total c.slashing
  let reward ← b.epochReward v
  let inclusionDelay ← b.inclusionDelay v
  return {
    validator := v
    epoch := next.epoch
    slot := next.slot
    balance := (next.balance? v).getD 0
    reward, maxReward
    attestationReward := c.attester
    syncReward := c.sync
    proposerReward
    slashingReward := c.slashing
    baseReward := c.baseReward
    missingSource := !t.flags.source
    missingTarget := !t.flags.target
    missingHead := !t.flags.head
    status := validator.statusAt next.epoch
    reportedProposerReward := c.reportedProposer
    computedProposerReward := c.computedProposer
    inSyncCommittee := c.inSyncCommittee
    inclusionDelay
    pool := none }

/-! ### Rows of the first epoch -/

def epochSummary (b : Bundle) : Except Fault EpochSummary := do
  let prev := b.window.prev
  let analysed := b.analysedValidators.filterMap (b.tallies[·]?)
  let totalBalance ← prev.activeRealBalance
  let totalEffectiveBalance ← prev.activeBalance b.network
  return {
    epoch := prev.epoch
    slot := prev.slot
    attestationCount := b.attestationCount
    attestingValidators := analysed.countP (·.inclusionDelay.isSome)
    activeValidators := prev.activeCount
    totalBalance
    attestingTargetBalance := b.attestingBalance.target
    totalEffectiveBalance
    missingSource := analysed.countP (!·.flags.source)
    missingTarget := analysed.countP (!·.flags.target)
    missingHead := analysed.countP (!·.flags.head)
    missedSlots := prev.missedSlots }

/-- The proposer assignments with their outcome; without a block listed, none was missed. -/
def proposerDuties (b : Bundle) : List ProposerDuty :=
  let prev := b.window.prev
  prev.duties.proposers.map fun seat =>
    ⟨seat.validator, seat.slot, ((prev.blockAt? seat.slot).map (·.proposed)).getD true⟩

def blockSummary (epoch : Epoch) (block : Block) : Except Fault BlockSummary := do
  let withdrawnAmount ← Word.sum (block.withdrawals.map (·.amount))
  return {
    epoch
    slot := block.slot
    proposer := block.proposer
    proposed := block.proposed
    attestationCount := block.attestations.length
    syncParticipants := (block.syncAggregate.map (·.bits.countOnes)).getD 0
    proposerSlashings := block.proposerSlashings.length
    attesterSlashings := block.attesterSlashings.length
    withdrawalCount := block.withdrawals.length
    withdrawnAmount
    reportedReward := block.report.map (·.total) }

def blockSummaries (b : Bundle) : Except Fault (List BlockSummary) :=
  b.window.prev.blocks.mapM (blockSummary b.window.prev.epoch)

def attestationRecords (b : Bundle) : List AttestationRecord :=
  b.window.prev.blocks.flatMap fun block =>
    block.attestations.map fun a => {
      epoch := b.window.prev.epoch
      slot := block.slot
      attestationSlot := a.data.slot
      committee := a.data.index
      blockRoot := a.data.blockRoot
      sourceEpoch := a.data.source.epoch
      sourceRoot := a.data.source.root
      targetEpoch := a.data.target.epoch
      targetRoot := a.data.target.root
      participants := a.bits.countOnes }

def withdrawalRecords (b : Bundle) : List WithdrawalRecord :=
  b.window.prev.blocks.flatMap fun block =>
    block.withdrawals.map fun x => {
      epoch := b.window.prev.epoch
      slot := block.slot
      index := x.index
      validator := x.validator
      amount := x.amount }

end Bundle

end EpochRewards
