import EpochRewards.Reward.Bundle

/-!
Inclusion of votes for the first epoch of a window.

Blocks are walked in the order of their slots. The first inclusion of a validator's vote
settles its delay and its flags; later ones are counted, not credited.
-/

namespace EpochRewards

/-- The checkpoints that a vote is compared with. -/
structure Canonical where
  source : Checkpoint
  target : Checkpoint

/-- A validator credited with its vote. -/
structure Credit where
  validator : ValidatorIndex
  slot : Slot
  proposer : ValidatorIndex
  delay : Nat
  flags : Flags
  deriving DecidableEq

namespace Bundle

/-- A flag is only earned together with the ones before it. -/
def voteFlags (b : Bundle) (data : VoteData) (delay : Nat) (canonical : Canonical)
    (head : Root) : Flags :=
  let source := data.source = canonical.source ∧ delay ≤ b.delayLimit .source
  let target := source ∧ data.target = canonical.target ∧ delay ≤ b.delayLimit .target
  let head := target ∧ data.blockRoot = head ∧ delay ≤ b.delayLimit .head
  ⟨source, target, head⟩

/-- One member's vote in the block that includes it after `delay` slots. -/
def creditVote (block : Block) (delay : Nat) (flags : Flags) (v : ValidatorIndex) :
    Pass (Option Credit) := do
  let b ← get
  let t ← b.tally v
  let validator ← b.window.current.registered v
  countVote block.slot
  if t.inclusionDelay.isSome then return none
  countNewVote block.slot
  setTally v { t with inclusionDelay := some delay, flags }
  (Flag.all.filter flags.has).forM (addAttesting validator.effectiveBalance)
  return some ⟨v, block.slot, block.proposer, delay, flags⟩

/-- An aggregate counts if it is for the window's first epoch and older than its block. -/
def creditAttestation (canonical : Canonical) (block : Block) (a : Attestation) :
    Pass (List Credit) := do
  let b ← get
  let w := b.window
  if b.network.epochOf a.data.slot = w.prev.epoch ∧ a.data.slot < block.slot then
    let delay := block.slot - a.data.slot
    let head ← w.current.blockRootAt b.network a.data.slot
    let flags := b.voteFlags a.data delay canonical head
    let members ← w.prev.duties.attesters a
    modify fun b => { b with attestationCount := b.attestationCount + 1 }
    return (← members.mapM (creditVote block delay flags)).filterMap id
  else return []

def creditBlock (canonical : Canonical) (block : Block) : Pass (List Credit) := do
  return (← block.attestations.mapM (creditAttestation canonical block)).flatten

/-- The proposed blocks of the first two snapshots by slot, equal slots as listed. -/
def votingBlocks (w : Window) : List Block :=
  (w.blocksBeforeNext.filter (·.proposed)).mergeSort fun a b => a.slot ≤ b.slot

def processAttestations : Pass (List Credit) := do
  let b ← get
  let w := b.window
  let root ← w.current.blockRootOf b.network w.prev.epoch
  let canonical := ⟨w.prev.currentJustified, ⟨w.prev.epoch, root⟩⟩
  return (← (votingBlocks w).mapM (creditBlock canonical)).flatten

end Bundle

end EpochRewards
