import EpochRewards.Network
import EpochRewards.Digest

/-!
The rows the program derives and the tables they belong to.
-/

namespace EpochRewards

inductive Table where
  | validatorRewards
  | epochSummary
  | proposerDuties
  | blocks
  | attestations
  | withdrawals
  deriving DecidableEq, Repr

namespace Table

def all : List Table :=
  [validatorRewards, epochSummary, proposerDuties, blocks, attestations, withdrawals]

def name : Table → String
  | validatorRewards => "t_validator_rewards_summary"
  | epochSummary => "t_epoch_metrics_summary"
  | proposerDuties => "t_proposer_duties"
  | blocks => "t_block_metrics"
  | attestations => "t_attestations"
  | withdrawals => "t_withdrawals"

def ofName? (s : String) : Option Table := all.find? (·.name == s)

end Table

inductive ValidatorStatus where
  | inQueue
  | active
  | exited
  | slashed
  deriving DecidableEq, Repr

namespace ValidatorStatus

def all : List ValidatorStatus := [inQueue, active, exited, slashed]

def name : ValidatorStatus → String
  | inQueue => "in_queue"
  | active => "active"
  | exited => "exited"
  | slashed => "slashed"

def ofName? (s : String) : Option ValidatorStatus := all.find? (·.name == s)

def codec : Codec ValidatorStatus := Codec.named name ofName?

end ValidatorStatus

/-- What a validator earned over an epoch against the most it could have earned. -/
structure ValidatorRecord where
  validator : ValidatorIndex
  epoch : Epoch
  slot : Slot
  balance : Gwei
  reward : Int
  maxReward : Gwei
  attestationReward : Gwei
  syncReward : Gwei
  proposerReward : Gwei
  slashingReward : Gwei
  baseReward : Gwei
  missingSource : Bool
  missingTarget : Bool
  missingHead : Bool
  status : ValidatorStatus
  reportedProposerReward : Option Gwei
  computedProposerReward : Gwei
  inSyncCommittee : Bool
  inclusionDelay : Nat
  pool : Option String
  deriving DecidableEq

structure EpochSummary where
  epoch : Epoch
  slot : Slot
  attestationCount : Nat
  attestingValidators : Nat
  activeValidators : Nat
  totalBalance : Gwei
  attestingTargetBalance : Gwei
  totalEffectiveBalance : Gwei
  missingSource : Nat
  missingTarget : Nat
  missingHead : Nat
  missedSlots : List Slot
  deriving DecidableEq

structure ProposerDuty where
  validator : ValidatorIndex
  slot : Slot
  proposed : Bool
  deriving DecidableEq

/-- The contents of the block proposed at a slot, or its absence. -/
structure BlockSummary where
  epoch : Epoch
  slot : Slot
  proposer : ValidatorIndex
  proposed : Bool
  attestationCount : Nat
  syncParticipants : Nat
  proposerSlashings : Nat
  attesterSlashings : Nat
  withdrawalCount : Nat
  withdrawnAmount : Gwei
  reportedReward : Option Gwei
  deriving DecidableEq

/-- An aggregate included in the block at `slot`. -/
structure AttestationRecord where
  epoch : Epoch
  slot : Slot
  attestationSlot : Slot
  committee : Nat
  blockRoot : Root
  sourceEpoch : Epoch
  sourceRoot : Root
  targetEpoch : Epoch
  targetRoot : Root
  participants : Nat
  deriving DecidableEq

structure WithdrawalRecord where
  epoch : Epoch
  slot : Slot
  index : Nat
  validator : ValidatorIndex
  amount : Gwei
  deriving DecidableEq

inductive Row where
  | validator (r : ValidatorRecord)
  | summary (r : EpochSummary)
  | duty (r : ProposerDuty)
  | block (r : BlockSummary)
  | attestation (r : AttestationRecord)
  | withdrawal (r : WithdrawalRecord)
  deriving DecidableEq

namespace Row

def table : Row → Table
  | validator _ => .validatorRewards
  | summary _ => .epochSummary
  | duty _ => .proposerDuties
  | block _ => .blocks
  | attestation _ => .attestations
  | withdrawal _ => .withdrawals

/-- The slot a row belongs to, by which rows are deleted. -/
def slot : Row → Slot
  | validator r => r.slot
  | summary r => r.slot
  | duty r => r.slot
  | block r => r.slot
  | attestation r => r.slot
  | withdrawal r => r.slot

end Row

end EpochRewards
