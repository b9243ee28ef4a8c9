import EpochRewards.Ledger
import EpochRewards.Registry
import EpochRewards.Reward.Flag
import EpochRewards.Reward.Preference
import EpochRewards.Reward.Vote
import EpochRewards.Reward.Window

/-!
Bundles: a window together with the figures that the reward passes accumulate over it.

A pass is a state transformer. One that fails leaves the figures as it had reached them.
-/

namespace EpochRewards

/-- The figures of one validator. -/
structure ValidatorTally where
  maxAttesterReward : Gwei
  /-- the delay of the first inclusion of its vote -/
  inclusionDelay : Option Nat
  flags : Flags
  deriving DecidableEq

def ValidatorTally.zero : ValidatorTally := ⟨0, none, .none⟩

/-- The figures of one block. -/
structure BlockTally where
  manualReward : Gwei
  votesIncluded : Nat
  newVotesIncluded : Nat
  deriving DecidableEq

def BlockTally.zero : BlockTally := ⟨0, 0, 0⟩

structure Bundle where
  network : Network
  phase : Phase
  preference : ReportPreference
  window : Window
  currentActiveBalance : Gwei
  nextActiveBalance : Gwei
  /-- one tally per validator of the last snapshot -/
  tallies : List ValidatorTally
  maxProposerRewards : Ledger Gwei
  maxSlashingRewards : Ledger Gwei
  /-- the holders of sync committee seats and what these earn -/
  maxSyncRewards : Ledger Gwei
  attestingBalance : FlagTotals
  attestationCount : Nat
  /-- one tally per slot with a block in the window -/
  blockTallies : Ledger BlockTally
  /-- delays of the first proposed block after indexed slots -/
  opportunities : Ledger (Option Nat)
  deriving DecidableEq

/-- Changes to a bundle that may fail half way. -/
abbrev Pass := EStateM (Failure RewardError) Bundle

namespace Bundle

/-- A bundle before any pass. -/
def fresh (network : Network) (phase : Phase) (preference : ReportPreference) (window : Window) :
    Except Fault Bundle := do
  let currentActiveBalance ← window.current.activeBalance network
  let nextActiveBalance ← window.next.activeBalance network
  return {
    network, phase, preference, window, currentActiveBalance, nextActiveBalance
    tallies := window.next.validators.map fun _ => .zero
    maxProposerRewards := .empty
    maxSlashingRewards := .empty
    maxSyncRewards := .empty
    attestingBalance := .zero
    attestationCount := 0
    blockTallies := .ofList (window.blocks.map fun b => (b.slot, .zero))
    opportunities := .empty }

def tally (b : Bundle) (v : ValidatorIndex) : Calc ValidatorTally :=
  (b.tallies[v]?).orFail (.validatorOutsideBundle v)

def blockTally (b : Bundle) (slot : Slot) : Calc BlockTally :=
  (b.blockTallies.get? slot).orFail (.blockNotInWindow slot)

/-- The validators whose duties in the first epoch of the window are rewarded. -/
def analysedValidators (b : Bundle) : List ValidatorIndex :=
  b.window.next.activeIndices b.window.prev.epoch

/-- Any vote within an epoch counts in full before Altair. -/
def delayLimit (b : Bundle) (flag : Flag) : Nat :=
  if b.phase.usesParticipationFlags then b.network.flagDelay flag
  else b.network.slotsPerEpoch.val

def delayLimitAt (b : Bundle) (index : Nat) : Calc Nat :=
  if b.phase.usesParticipationFlags then b.network.flagDelayAt index
  else return b.network.slotsPerEpoch.val

def inclusionDelay (b : Bundle) (v : ValidatorIndex) : Except Fault Nat :=
  match b.tallies[v]? >>= (·.inclusionDelay) with
  | some delay => return delay
  | none => b.network.missingDelay

/-! ### Changes of single figures -/

/-- The tallies with `t` in the place of a validator, which has to be there. -/
def tallied (b : Bundle) (v : ValidatorIndex) (t : ValidatorTally) :
    Except Fault (List ValidatorTally) :=
  if v < b.tallies.length then .ok (b.tallies.set v t)
  else .error (.indexOutOfBounds v b.tallies.length)

def setTally (v : ValidatorIndex) (t : ValidatorTally) : Pass Unit := do
  let tallies ← (← get).tallied v t
  modify fun b => { b with tallies }

def setBlockTally (slot : Slot) (t : BlockTally) : Pass Unit :=
  modify fun b => { b with blockTallies := b.blockTallies.insert slot t }

def countVote (slot : Slot) : Pass Unit := do
  let t ← (← get).blockTally slot
  setBlockTally slot { t with votesIncluded := t.votesIncluded + 1 }

def countNewVote (slot : Slot) : Pass Unit := do
  let t ← (← get).blockTally slot
  setBlockTally slot { t with newVotesIncluded := t.newVotesIncluded + 1 }

def addManualReward (slot : Slot) (amount : Gwei) : Pass Unit := do
  let t ← (← get).blockTally slot
  setBlockTally slot { t with manualReward := ← Word.add t.manualReward amount }

def creditProposer (v : ValidatorIndex) (amount : Gwei) : Pass Unit := do
  let ledger ← (← get).maxProposerRewards.credit v amount
  modify fun b => { b with maxProposerRewards := ledger }

def creditSlashing (v : ValidatorIndex) (amount : Gwei) : Pass Unit := do
  let ledger ← (← get).maxSlashingRewards.credit v amount
  modify fun b => { b with maxSlashingRewards := ledger }

def creditSync (v : ValidatorIndex) (amount : Gwei) : Pass Unit := do
  let ledger ← (← get).maxSyncRewards.credit v amount
  modify fun b => { b with maxSyncRewards := ledger }

def addAttesting (amount : Gwei) (flag : Flag) : Pass Unit := do
  let total ← Word.add ((← get).attestingBalance.get flag) amount
  modify fun b => { b with attestingBalance := b.attestingBalance.set total flag }

/-- Pays a proposer and notes the amount with its block. -/
def payProposer (block : Block) (amount : Gwei) : Pass Unit := do
  creditProposer block.proposer amount
  addManualReward block.slot amount

def addAttesterReward (v : ValidatorIndex) (amount : Gwei) : Pass Unit := do
  let t ← (← get).tally v
  setTally v { t with maxAttesterReward := ← Word.add t.maxAttesterReward amount }

end Bundle

end EpochRewards
