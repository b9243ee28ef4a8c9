import EpochRewards.Reward.Error

/-!
Resolving votes: the validators behind the bits of an aggregate, and the canonical roots that
a vote is compared with.
-/

namespace EpochRewards

/-- The members whose bit is set; a bit outside the committee is an error. -/
def Duties.attesters (d : Duties) (a : Attestation) : Calc (List ValidatorIndex) := do
  let slot := a.data.slot
  let index := a.data.index
  let members ← (d.members? slot index).orFail (.committeeNotFound slot index)
  a.bits.ones.mapM fun i => (members[i]?).orFail (.attesterNotInCommittee slot index i)

def Snapshot.registered (s : Snapshot) (v : ValidatorIndex) : Calc Validator :=
  (s.validator? v).orFail (.validatorNotFound v)

/-- The root kept for a slot, of those that the ring has not lost at the snapshot's slot. -/
def Snapshot.blockRootAt (net : Network) (s : Snapshot) (slot : Slot) : Calc Root := do
  let outOfRange := RewardError.slotOutOfRange slot s.slot
  if slot < s.slot then
    let lost ← Word.add slot net.rootRing.val
    if s.slot ≤ lost then (s.blockRoots[slot % net.rootRing.val]?).orFail outOfRange
    else .error (.error outOfRange)
  else .error (.error outOfRange)

/-- The root of the block that started an epoch, or of the last one before it. -/
def Snapshot.blockRootOf (net : Network) (s : Snapshot) (epoch : Epoch) : Calc Root :=
  s.blockRootAt net (net.startSlot epoch)

/-- The members of the first list that the second one has too, in the first list's order. -/
def AttesterSlashing.common (first second : List ValidatorIndex) : List ValidatorIndex :=
  first.filter second.contains

/-- The validators that both attestations of a slashing name. -/
def AttesterSlashing.offenders (s : AttesterSlashing) : List ValidatorIndex :=
  common s.first.indices s.second.indices

def Block.slashedIndices (b : Block) : List ValidatorIndex :=
  b.attesterSlashings.flatMap (·.offenders) ++ b.proposerSlashings.map (·.first.proposer)

end EpochRewards
