import EpochRewards.Capacity
import EpochRewards.Reward.Window

/-!
Deterministic chains.

A fresh chain is perfect: every validator is active from genesis, every slot has a block,
every committee votes for the canonical source, target and head, and every vote is included
one slot later.
-/

namespace EpochRewards

structure Chain where
  network : Network
  validatorCount : Nat
  /-- the snapshot of epoch `e` at position `e` -/
  states : List Snapshot

inductive ChainError where
  | epochNotInChain (epoch : Epoch)
  | noBlockAt (slot : Slot)
  | noDuty (v : ValidatorIndex) (epoch : Epoch)
  | windowBeforeGenesis (epoch : Epoch)
  | noSuchPath
  /-- an edited state that is not the form of a snapshot -/
  | undecodable
  deriving DecidableEq

def ChainError.message : ChainError → String
  | epochNotInChain epoch => s!"epoch {epoch} is not part of the chain"
  | noBlockAt slot => s!"no block at slot {slot}"
  | noDuty v epoch => s!"validator {v} has no duty in epoch {epoch}"
  | windowBeforeGenesis epoch => s!"window ending in epoch {epoch} starts before genesis"
  | noSuchPath => "no such path"
  | undecodable => "the state cannot be decoded"

namespace Chain

def validatorBalance : Gwei := 32000000000

/-- What every validator gains in each epoch after the first. -/
def balanceGrowth : Gwei := 10000

/-! ### Bytes that the parts of a chain take -/

def rootSize : Nat := 32

def keySize : Nat := 48

def validatorSize : Nat := 96

def blockSize : Nat := 192

def snapshotSize : Nat := 432

/-! ### Fresh chains -/

def blockRoot (slot : Slot) : Except Fault Root := do
  return .ofNat 32 (← Word.add slot 1)

def validatorKey (v : ValidatorIndex) : Except Fault PublicKey := do
  return .ofNat 48 (← Word.add v 1)

def balanceAt (epoch : Epoch) : Except Fault Gwei := do
  Word.add validatorBalance (← Word.mul balanceGrowth (epoch - 1))

def justifiedAt (net : Network) (epoch : Epoch) : Except Fault Checkpoint := do
  return ⟨epoch - 1, ← blockRoot (net.startSlot (epoch - 1))⟩

/-- The members of the only committee of a slot. -/
def committeeMembers (net : Network) (count : Nat) (slot : Slot) : List ValidatorIndex :=
  (List.range count).filter fun v => v % net.slotsPerEpoch.val == slot % net.slotsPerEpoch.val

def buildDuties (net : Network) (count : Nat) (epoch : Epoch) : Except Fault Duties := do
  let slots ← net.slotsOf epoch
  let committees := slots.map fun slot => ⟨slot, 0, committeeMembers net count slot⟩
  let proposers ← slots.mapM fun slot => return ⟨← Word.rem slot count, slot⟩
  return ⟨committees.filter (!·.members.isEmpty), proposers⟩

/-- The votes of a slot's committee, all of them set. -/
def buildAttestation (net : Network) (slot : Slot) (memberCount : Nat) :
    Except Fault Attestation := do
  let epoch := net.epochOf slot
  let root ← blockRoot slot
  let source ← justifiedAt net epoch
  let target ← blockRoot (net.startSlot epoch)
  return ⟨.ofBits (List.replicate memberCount true), slot, 0, root, source, epoch, target⟩

def buildAttestations (net : Network) (count : Nat) : Slot → Except Fault (List Attestation)
  | 0 => return []
  | slot + 1 =>
    match committeeMembers net count slot with
    | [] => return []
    | members => return [← buildAttestation net slot members.length]

def buildBlock (net : Network) (count : Nat) (slot : Slot) : Except Fault Block := do
  let attestations ← buildAttestations net count slot
  let seats := net.syncCommitteeSize.val
  let syncAggregate :=
    if .altair ≤ net.phaseAt (net.epochOf slot) then
      some ⟨.ofBits (List.replicate seats true)⟩
    else none
  let proposer ← Word.rem slot count
  return {
    slot, proposer
    proposed := true
    attestations, syncAggregate
    proposerSlashings := []
    attesterSlashings := []
    withdrawals := []
    report := none }

/-- The root in position `i` of the ring at `slot`: that of the one slot among the last
`ring` ones with this remainder. -/
def ringRoot (ring : Nat) (slot : Slot) (i : Nat) : Except Fault Root :=
  let oldest := slot - ring
  let past := oldest + (i + ring - oldest % ring) % ring
  if past < slot then blockRoot past else return .zero

def buildValidator (v : ValidatorIndex) : Except Fault Validator := do
  return {
    key := ← validatorKey v
    effectiveBalance := validatorBalance
    slashed := false
    eligibilityEpoch := 0
    activationEpoch := 0
    exitEpoch := farFuture
    withdrawableEpoch := farFuture }

def buildSyncCommittee (net : Network) (count : Nat) : Except Fault SyncCommittee := do
  Capacity.space keySize net.syncCommitteeSize.val
  return ⟨← (List.range net.syncCommitteeSize.val).mapM fun seat => do
    validatorKey (← Word.rem seat count)⟩

def buildSnapshot (net : Network) (count : Nat) (epoch : Epoch) : Except Fault Snapshot := do
  let slot := net.terminalSlot epoch
  let ring := net.rootRing.val
  Capacity.space rootSize ring
  let blockRoots ← (List.range ring).mapM (ringRoot ring slot)
  Capacity.space validatorSize count
  let validators ← (List.range count).mapM buildValidator
  let syncCommittee ←
    if .altair ≤ net.phaseAt epoch then some <$> buildSyncCommittee net count else pure none
  let stateRoot ← Word.add 1000 epoch
  let balance ← balanceAt epoch
  let previousJustified ← justifiedAt net (epoch - 1)
  let currentJustified ← justifiedAt net epoch
  Capacity.space blockSize net.slotsPerEpoch.val
  let blocks ← (← net.slotsOf epoch).mapM (buildBlock net count)
  let duties ← buildDuties net count epoch
  return {
    epoch, slot
    stateRoot := .ofNat 32 stateRoot
    validators
    balances := List.replicate count balance
    blockRoots, previousJustified, currentJustified
    finalized := ⟨0, .zero⟩
    syncCommittee, blocks, duties }

/-- The perfect chain up to an epoch. -/
def build (network : Network) (validatorCount lastEpoch : Nat) : Except Fault Chain := do
  Capacity.space snapshotSize (lastEpoch + 1)
  return ⟨network, validatorCount,
    ← (List.range (lastEpoch + 1)).mapM (buildSnapshot network validatorCount)⟩

def state (c : Chain) (epoch : Epoch) : Except (Failure ChainError) Snapshot :=
  (c.states[epoch]?).orFail (.epochNotInChain epoch)

/-- The snapshots of an epoch and of the two before it. -/
def window (c : Chain) (next : Epoch) : Except (Failure ChainError) Window := do
  if next < 2 then .error (.error (.windowBeforeGenesis next))
  else return ⟨← c.state (next - 2), ← c.state (next - 1), ← c.state next⟩

end Chain

end EpochRewards
