import EpochRewards.Snapshot

/-!
The JSON form of snapshots and of their parts.

All parts refuse unknown members except reward reports, which skip them.
-/

namespace EpochRewards

open Codec Codec.Fields

def Root.codec : Codec Root := Digest.codec 32

def PublicKey.codec : Codec PublicKey := Digest.codec 48

def Checkpoint.codec : Codec Checkpoint :=
  record true (req "epoch" word <| req "root" Root.codec <| none)
    (fun c => (c.epoch, c.root, ()))
    fun (epoch, root, _) => ⟨epoch, root⟩

def VoteData.codec : Codec VoteData :=
  record true
    (req "slot" word <| req "index" word <| req "beacon_block_root" Root.codec <|
      req "source" Checkpoint.codec <| req "target" Checkpoint.codec <| none)
    (fun d => (d.slot, d.index, d.blockRoot, d.source, d.target, ()))
    fun (slot, index, blockRoot, source, target, _) => ⟨slot, index, blockRoot, source, target⟩

def Attestation.codec : Codec Attestation :=
  record true (req "aggregation_bits" BitVector.codec <| req "data" VoteData.codec <| none)
    (fun a => (a.bits, a.data, ()))
    fun (bits, data, _) => ⟨bits, data⟩

def IndexedVote.codec : Codec IndexedVote :=
  record true (req "attesting_indices" (list word) <| req "data" VoteData.codec <| none)
    (fun v => (v.indices, v.data, ()))
    fun (indices, data, _) => ⟨indices, data⟩

def AttesterSlashing.codec : Codec AttesterSlashing :=
  record true
    (req "attestation_1" IndexedVote.codec <| req "attestation_2" IndexedVote.codec <| none)
    (fun s => (s.first, s.second, ()))
    fun (first, second, _) => ⟨first, second⟩

def Header.codec : Codec Header :=
  record true (req "slot" word <| req "proposer_index" word <| none)
    (fun h => (h.slot, h.proposer, ()))
    fun (slot, proposer, _) => ⟨slot, proposer⟩

def ProposerSlashing.codec : Codec ProposerSlashing :=
  record true (req "header_1" Header.codec <| req "header_2" Header.codec <| none)
    (fun s => (s.first, s.second, ()))
    fun (first, second, _) => ⟨first, second⟩

def Withdrawal.codec : Codec Withdrawal :=
  record true (req "index" word <| req "validator_index" word <| req "amount" word <| none)
    (fun w => (w.index, w.validator, w.amount, ()))
    fun (index, validator, amount, _) => ⟨index, validator, amount⟩

def Validator.codec : Codec Validator :=
  record true
    (req "pubkey" PublicKey.codec <| req "effective_balance" word <| req "slashed" bool <|
      req "activation_eligibility_epoch" word <| req "activation_epoch" word <|
      req "exit_epoch" word <| req "withdrawable_epoch" word <| none)
    (fun v => (v.key, v.effectiveBalance, v.slashed, v.eligibilityEpoch, v.activationEpoch,
      v.exitEpoch, v.withdrawableEpoch, ()))
    fun (key, effectiveBalance, slashed, eligibilityEpoch, activationEpoch, exitEpoch,
      withdrawableEpoch, _) =>
      { key, effectiveBalance, slashed, eligibilityEpoch, activationEpoch, exitEpoch,
        withdrawableEpoch }

def SyncAggregate.codec : Codec SyncAggregate :=
  record true (req "sync_committee_bits" BitVector.codec <| none)
    (fun a => (a.bits, ()))
    fun (bits, _) => ⟨bits⟩

def SyncCommittee.codec : Codec SyncCommittee :=
  record true (req "pubkeys" (list PublicKey.codec) <| none)
    (fun c => (c.keys, ()))
    fun (keys, _) => ⟨keys⟩

def RewardReport.codec : Codec RewardReport :=
  record false
    (req "total" word <| req "attestations" word <| req "sync_aggregate" word <|
      req "proposer_slashings" word <| req "attester_slashings" word <| none)
    (fun r => (r.total, r.attestations, r.syncAggregate, r.proposerSlashings,
      r.attesterSlashings, ()))
    fun (total, attestations, syncAggregate, proposerSlashings, attesterSlashings, _) =>
      { total, attestations, syncAggregate, proposerSlashings, attesterSlashings }

def Block.codec : Codec Block :=
  record true
    (req "slot" word <| req "proposer_index" word <| req "proposed" bool <|
      dft "attestations" (list Attestation.codec) [] <|
      dft "sync_aggregate" (nullable SyncAggregate.codec) Option.none <|
      dft "proposer_slashings" (list ProposerSlashing.codec) [] <|
      dft "attester_slashings" (list AttesterSlashing.codec) [] <|
      dft "withdrawals" (list Withdrawal.codec) [] <|
      dft "reward" (nullable RewardReport.codec) Option.none <|
      none)
    (fun b => (b.slot, b.proposer, b.proposed, b.attestations, b.syncAggregate,
      b.proposerSlashings, b.attesterSlashings, b.withdrawals, b.report, ()))
    fun (slot, proposer, proposed, attestations, syncAggregate, proposerSlashings,
      attesterSlashings, withdrawals, report, _) =>
      { slot, proposer, proposed, attestations, syncAggregate, proposerSlashings,
        attesterSlashings, withdrawals, report }

def Committee.codec : Codec Committee :=
  record true (req "slot" word <| req "index" word <| req "validators" (list word) <| none)
    (fun c => (c.slot, c.index, c.members, ()))
    fun (slot, index, members, _) => ⟨slot, index, members⟩

def ProposerSeat.codec : Codec ProposerSeat :=
  record true (req "validator_index" word <| req "slot" word <| none)
    (fun p => (p.validator, p.slot, ()))
    fun (validator, slot, _) => ⟨validator, slot⟩

def Duties.codec : Codec Duties :=
  record true
    (req "beacon_committees" (list Committee.codec) <|
      req "proposer_duties" (list ProposerSeat.codec) <| none)
    (fun d => (d.committees, d.proposers, ()))
    fun (committees, proposers, _) => ⟨committees, proposers⟩

def Snapshot.codec : Codec Snapshot :=
  record true
    (req "epoch" word <| req "slot" word <| req "state_root" Root.codec <|
      req "validators" (list Validator.codec) <| req "balances" (list word) <|
      req "block_roots" (list Root.codec) <|
      req "previous_justified_checkpoint" Checkpoint.codec <|
      req "current_justified_checkpoint" Checkpoint.codec <|
      req "finalized_checkpoint" Checkpoint.codec <|
      dft "current_sync_committee" (nullable SyncCommittee.codec) Option.none <|
      dft "blocks" (list Block.codec) [] <|
      dft "duties" Duties.codec .empty <|
      none)
    (fun s => (s.epoch, s.slot, s.stateRoot, s.validators, s.balances, s.blockRoots,
      s.previousJustified, s.currentJustified, s.finalized, s.syncCommittee, s.blocks,
      s.duties, ()))
    fun (epoch, slot, stateRoot, validators, balances, blockRoots, previousJustified,
      currentJustified, finalized, syncCommittee, blocks, duties, _) =>
      { epoch, slot, stateRoot, validators, balances, blockRoots, previousJustified,
        currentJustified, finalized, syncCommittee, blocks, duties }

end EpochRewards
