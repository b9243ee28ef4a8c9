import EpochRewards.BitVector
import EpochRewards.Digest
import EpochRewards.Network

/-!
Snapshots: the last state of an epoch together with its blocks and duties.

The state root zero marks a placeholder for an epoch before genesis.
-/

namespace EpochRewards

structure Checkpoint where
  epoch : Epoch
  root : Root
  deriving DecidableEq

structure VoteData where
  slot : Slot
  index : Nat
  blockRoot : Root
  source : Checkpoint
  target : Checkpoint
  deriving DecidableEq

/-- An aggregate of votes; bit `i` is the vote of member `i` of the committee it names. -/
structure Attestation where
  bits : BitVector
  data : VoteData
  deriving DecidableEq

structure IndexedVote where
  indices : List ValidatorIndex
  data : VoteData
  deriving DecidableEq

structure AttesterSlashing where
  first : IndexedVote
  second : IndexedVote
  deriving DecidableEq

structure Header where
  slot : Slot
  proposer : ValidatorIndex
  deriving DecidableEq

structure ProposerSlashing where
  first : Header
  second : Header
  deriving DecidableEq

structure Withdrawal where
  index : Nat
  validator : ValidatorIndex
  amount : Gwei
  deriving DecidableEq

structure Validator where
  key : PublicKey
  effectiveBalance : Gwei
  slashed : Bool
  eligibilityEpoch : Epoch
  activationEpoch : Epoch
  exitEpoch : Epoch
  withdrawableEpoch : Epoch
  deriving DecidableEq

structure SyncAggregate where
  bits : BitVector
  deriving DecidableEq

/-- One key per seat; a validator may hold several seats. -/
structure SyncCommittee where
  keys : List PublicKey
  deriving DecidableEq

/-- What a data source reports about the rewards of a block. -/
structure RewardReport where
  total : Gwei
  attestations : Gwei
  syncAggregate : Gwei
  proposerSlashings : Gwei
  attesterSlashings : Gwei
  deriving DecidableEq

/-- The part of the total that rewards the proposer for including votes. -/
def RewardReport.proposerComponent (r : RewardReport) : Gwei :=
  r.total - r.proposerSlashings - r.attesterSlashings

structure Block where
  slot : Slot
  proposer : ValidatorIndex
  proposed : Bool
  attestations : List Attestation
  syncAggregate : Option SyncAggregate
  proposerSlashings : List ProposerSlashing
  attesterSlashings : List AttesterSlashing
  withdrawals : List Withdrawal
  report : Option RewardReport
  deriving DecidableEq

/-- The summary of a slot in which no block was produced. -/
def Block.missed (slot : Slot) (proposer : ValidatorIndex) : Block :=
  ⟨slot, proposer, false, [], none, [], [], [], none⟩

structure Committee where
  slot : Slot
  index : Nat
  members : List ValidatorIndex
  deriving DecidableEq

structure ProposerSeat where
  validator : ValidatorIndex
  slot : Slot
  deriving DecidableEq

/-- The committees and proposers of an epoch. -/
structure Duties where
  committees : List Committee
  proposers : List ProposerSeat
  deriving DecidableEq

namespace Duties

def empty : Duties := ⟨[], []⟩

/-- The members of a committee; of several with one slot and index, the last. -/
def members? (d : Duties) (slot : Slot) (index : Nat) : Option (List ValidatorIndex) :=
  (d.committees.reverse.find? fun c => c.slot == slot && c.index == index).map (·.members)

/-- The slot in which a validator votes; of several, that of the last committee. -/
def voteSlot? (d : Duties) (v : ValidatorIndex) : Option Slot :=
  (d.committees.reverse.find? fun c => c.members.contains v).map (·.slot)

/-- The validator first scheduled to propose at a slot. -/
def proposer? (d : Duties) (slot : Slot) : Option ValidatorIndex :=
  (d.proposers.find? (·.slot == slot)).map (·.validator)

end Duties

structure Snapshot where
  epoch : Epoch
  slot : Slot
  stateRoot : Root
  validators : List Validator
  balances : List Gwei
  /-- the ring of block roots: slot `s` has position `s` modulo its length -/
  blockRoots : List Root
  previousJustified : Checkpoint
  currentJustified : Checkpoint
  finalized : Checkpoint
  syncCommittee : Option SyncCommittee
  blocks : List Block
  duties : Duties
  deriving DecidableEq

namespace Snapshot

/-- The placeholder for an epoch before genesis. -/
def placeholder (epoch : Epoch) (slot : Slot) : Snapshot where
  epoch
  slot
  stateRoot := .zero
  validators := []
  balances := []
  blockRoots := []
  previousJustified := ⟨0, .zero⟩
  currentJustified := ⟨0, .zero⟩
  finalized := ⟨0, .zero⟩
  syncCommittee := none
  blocks := []
  duties := .empty

def isPlaceholder (s : Snapshot) : Bool := s.stateRoot.isZero

def validator? (s : Snapshot) (v : ValidatorIndex) : Option Validator := s.validators[v]?

def balance? (s : Snapshot) (v : ValidatorIndex) : Option Gwei := s.balances[v]?

/-- The first block listed for a slot. -/
def blockAt? (s : Snapshot) (slot : Slot) : Option Block := s.blocks.find? (·.slot == slot)

def proposedBlocks (s : Snapshot) : List Block := s.blocks.filter (·.proposed)

def missedSlots (s : Snapshot) : List Slot := (s.blocks.filter (!·.proposed)).map (·.slot)

end Snapshot

end EpochRewards
