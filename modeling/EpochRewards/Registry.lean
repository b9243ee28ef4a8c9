import EpochRewards.Row
import EpochRewards.Snapshot

/-!
The registry of a snapshot: who is active, how much is at stake, and the base rewards that
follow from it.
-/

namespace EpochRewards

namespace Validator

def isActiveAt (v : Validator) (epoch : Epoch) : Bool :=
  v.activationEpoch ≤ epoch && epoch < v.exitEpoch

def statusAt (v : Validator) (epoch : Epoch) : ValidatorStatus :=
  if v.slashed then .slashed
  else if v.activationEpoch = farFuture ∨ epoch < v.activationEpoch then .inQueue
  else if epoch < v.exitEpoch then .active
  else .exited

end Validator

namespace Snapshot

def activeIndices (s : Snapshot) (epoch : Epoch) : List ValidatorIndex :=
  (s.validators.zipIdx.filter fun (v, _) => v.isActiveAt epoch).map (·.2)

def activeCount (s : Snapshot) : Nat := (s.activeIndices s.epoch).length

/-- The effective balance active in the snapshot's epoch, never less than an increment. -/
def activeBalance (net : Network) (s : Snapshot) : Except Fault Gwei := do
  let active := s.validators.filter (·.isActiveAt s.epoch)
  return max (← Word.sum (active.map (·.effectiveBalance))) net.balanceIncrement.val

/-- The actual balance of the validators active in the snapshot's epoch. -/
def activeRealBalance (s : Snapshot) : Except Fault Gwei :=
  Word.sum (((s.validators.zip s.balances).filter fun (v, _) => v.isActiveAt s.epoch).map (·.2))

def effectiveBalance (s : Snapshot) : Except Fault Gwei :=
  Word.sum (s.validators.map (·.effectiveBalance))

end Snapshot

namespace Network

def baseRewardPerIncrement (net : Network) (activeBalance : Gwei) : Except Fault Gwei := do
  Word.div (← Word.mul net.balanceIncrement.val net.baseRewardFactor)
    (max (Word.sqrt activeBalance) 1)

def baseReward (net : Network) (effective perIncrement : Gwei) : Except Fault Gwei :=
  Word.mul (effective / net.balanceIncrement.val) perIncrement

/-- Four components share the base reward before Altair. -/
def phase0BaseReward (net : Network) (effective activeBalance : Gwei) : Except Fault Gwei := do
  let root ← Word.div (← Word.mul effective net.baseRewardFactor)
    (max (Word.sqrt activeBalance) 1)
  return root / 4

end Network

end EpochRewards
