import EpochRewards.Row
import EpochRewards.Json.Reader

/-!
The JSON form of rows.

A row carries no tag: a value is the first kind of row that it has all the fields of. A row
in a table's file is read as the kind of that table.
-/

namespace EpochRewards

open Codec Codec.Fields

def ValidatorRecord.codec : Codec ValidatorRecord :=
  record false
    (req "validator_index" word <| req "epoch" word <| req "slot" word <|
      req "validator_balance" word <| req "reward" int <| req "max_reward" word <|
      req "attestation_reward" word <| req "sync_committee_reward" word <|
      req "proposer_reward" word <| req "slashing_reward" word <| req "base_reward" word <|
      req "missing_source" bool <| req "missing_target" bool <| req "missing_head" bool <|
      req "status" ValidatorStatus.codec <| opt "proposer_api_reward" word <|
      req "proposer_manual_reward" word <| req "in_sync_committee" bool <|
      req "inclusion_delay" word <| opt "pool_name" text <| none)
    (fun r => (r.validator, r.epoch, r.slot, r.balance, r.reward, r.maxReward,
      r.attestationReward, r.syncReward, r.proposerReward, r.slashingReward, r.baseReward,
      r.missingSource, r.missingTarget, r.missingHead, r.status, r.reportedProposerReward,
      r.computedProposerReward, r.inSyncCommittee, r.inclusionDelay, r.pool, ()))
    fun (validator, epoch, slot, balance, reward, maxReward, attestationReward, syncReward,
      proposerReward, slashingReward, baseReward, missingSource, missingTarget, missingHead,
      status, reportedProposerReward, computedProposerReward, inSyncCommittee, inclusionDelay,
      pool, _) =>
      { validator, epoch, slot, balance, reward, maxReward, attestationReward, syncReward,
        proposerReward, slashingReward, baseReward, missingSource, missingTarget, missingHead,
        status, reportedProposerReward, computedProposerReward, inSyncCommittee, inclusionDelay,
        pool }

def EpochSummary.codec : Codec EpochSummary :=
  record false
    (req "epoch" word <| req "slot" word <| req "attestation_count" word <|
      req "attesting_validators" word <| req "active_validators" word <|
      req "total_balance" word <| req "attesting_target_balance" word <|
      req "total_effective_balance" word <| req "missing_source" word <|
      req "missing_target" word <| req "missing_head" word <|
      req "missed_blocks" (list word) <| none)
    (fun r => (r.epoch, r.slot, r.attestationCount, r.attestingValidators, r.activeValidators,
      r.totalBalance, r.attestingTargetBalance, r.totalEffectiveBalance, r.missingSource,
      r.missingTarget, r.missingHead, r.missedSlots, ()))
    fun (epoch, slot, attestationCount, attestingValidators, activeValidators, totalBalance,
      attestingTargetBalance, totalEffectiveBalance, missingSource, missingTarget, missingHead,
      missedSlots, _) =>
      { epoch, slot, attestationCount, attestingValidators, activeValidators, totalBalance,
        attestingTargetBalance, totalEffectiveBalance, missingSource, missingTarget,
        missingHead, missedSlots }

def ProposerDuty.codec : Codec ProposerDuty :=
  record false (req "validator_index" word <| req "slot" word <| req "proposed" bool <| none)
    (fun r => (r.validator, r.slot, r.proposed, ()))
    fun (validator, slot, proposed, _) => ⟨validator, slot, proposed⟩

def BlockSummary.codec : Codec BlockSummary :=
  record false
    (req "epoch" word <| req "slot" word <| req "proposer_index" word <| req "proposed" bool <|
      req "attestation_count" word <| req "sync_committee_participants" word <|
      req "proposer_slashings" word <| req "attester_slashings" word <|
      req "withdrawal_count" word <| req "withdrawn_amount" word <|
      opt "reported_reward" word <| none)
    (fun r => (r.epoch, r.slot, r.proposer, r.proposed, r.attestationCount, r.syncParticipants,
      r.proposerSlashings, r.attesterSlashings, r.withdrawalCount, r.withdrawnAmount,
      r.reportedReward, ()))
    fun (epoch, slot, proposer, proposed, attestationCount, syncParticipants, proposerSlashings,
      attesterSlashings, withdrawalCount, withdrawnAmount, reportedReward, _) =>
      { epoch, slot, proposer, proposed, attestationCount, syncParticipants, proposerSlashings,
        attesterSlashings, withdrawalCount, withdrawnAmount, reportedReward }

def AttestationRecord.codec : Codec AttestationRecord :=
  record false
    (req "epoch" word <| req "slot" word <| req "attestation_slot" word <|
      req "committee_index" word <| req "beacon_block_root" (Digest.codec 32) <|
      req "source_epoch" word <| req "source_root" (Digest.codec 32) <|
      req "target_epoch" word <| req "target_root" (Digest.codec 32) <|
      req "participants" word <| none)
    (fun r => (r.epoch, r.slot, r.attestationSlot, r.committee, r.blockRoot, r.sourceEpoch,
      r.sourceRoot, r.targetEpoch, r.targetRoot, r.participants, ()))
    fun (epoch, slot, attestationSlot, committee, blockRoot, sourceEpoch, sourceRoot,
      targetEpoch, targetRoot, participants, _) =>
      { epoch, slot, attestationSlot, committee, blockRoot, sourceEpoch, sourceRoot,
        targetEpoch, targetRoot, participants }

def WithdrawalRecord.codec : Codec WithdrawalRecord :=
  record false
    (req "epoch" word <| req "slot" word <| req "index" word <| req "validator_index" word <|
      req "amount" word <| none)
    (fun r => (r.epoch, r.slot, r.index, r.validator, r.amount, ()))
    fun (epoch, slot, index, validator, amount, _) =>
      { epoch, slot, index, validator, amount }

namespace Row

def encode : Row → Json
  | validator r => ValidatorRecord.codec.encode r
  | summary r => EpochSummary.codec.encode r
  | duty r => ProposerDuty.codec.encode r
  | block r => BlockSummary.codec.encode r
  | attestation r => AttestationRecord.codec.encode r
  | withdrawal r => WithdrawalRecord.codec.encode r

/-- The row of a table that a value stands for. -/
def decodeAs (t : Table) (j : Json) : Option Row :=
  match t with
  | .validatorRewards => (ValidatorRecord.codec.decode j).map .validator
  | .epochSummary => (EpochSummary.codec.decode j).map .summary
  | .proposerDuties => (ProposerDuty.codec.decode j).map .duty
  | .blocks => (BlockSummary.codec.decode j).map .block
  | .attestations => (AttestationRecord.codec.decode j).map .attestation
  | .withdrawals => (WithdrawalRecord.codec.decode j).map .withdrawal

/-- The most arrays and objects around a value in an untagged row. -/
def maxDepth : Nat := 127

def decode (j : Json) : Option Row :=
  if j.readable && j.depth ≤ maxDepth then Table.all.findSome? (decodeAs · j) else Option.none

def codec : Codec Row := ⟨encode, decode⟩

end Row

end EpochRewards
