import EpochRewards.Proofs.Upkeep
import EpochRewards.Reward.Accounting

/-!
What each pass leaves alone.

A property of bundles that does not depend on the figures a pass changes holds after the pass if it
held before. The walk over the votes for the first epoch changes more, and is described elsewhere.
-/

namespace EpochRewards

open Pass

open EpochRewards.Bundle

variable {I : Bundle → Prop}

/-! ### Figures -/

/-- The property does not depend on what proposers were paid and what blocks included. -/
def IgnoresPayments (I : Bundle → Prop) : Prop :=
  ∀ b ledger blocks, I b → I { b with maxProposerRewards := ledger, blockTallies := blocks }

def IgnoresSlashings (I : Bundle → Prop) : Prop :=
  ∀ b ledger, I b → I { b with maxSlashingRewards := ledger }

def IgnoresSync (I : Bundle → Prop) : Prop :=
  ∀ b ledger, I b → I { b with maxSyncRewards := ledger }

def IgnoresOpportunities (I : Bundle → Prop) : Prop :=
  ∀ b ledger, I b → I { b with opportunities := ledger }

def IgnoresTallies (I : Bundle → Prop) : Prop := ∀ b tallies, I b → I { b with tallies }

namespace Bundle

lemma countVote_upholds (hI : IgnoresPayments I) (s : Slot) :
    Upholds I (fun _ => True) (countVote s) :=
  .get_bind fun _ _ => .lift_bind fun _ _ => .modify fun b hb => hI b b.maxProposerRewards _ hb

lemma countNewVote_upholds (hI : IgnoresPayments I) (s : Slot) :
    Upholds I (fun _ => True) (countNewVote s) :=
  .get_bind fun _ _ => .lift_bind fun _ _ => .modify fun b hb => hI b b.maxProposerRewards _ hb

lemma creditProposer_upholds (hI : IgnoresPayments I) (v : ValidatorIndex) (amount : Gwei) :
    Upholds I (fun _ => True) (creditProposer v amount) :=
  .get_bind fun _ _ => .fault_bind fun _ _ => .modify fun b hb => hI b _ b.blockTallies hb

lemma addManualReward_upholds (hI : IgnoresPayments I) (s : Slot) (amount : Gwei) :
    Upholds I (fun _ => True) (addManualReward s amount) :=
  .get_bind fun _ _ => .lift_bind fun _ _ => .fault_bind fun _ _ =>
    .modify fun b hb => hI b b.maxProposerRewards _ hb

lemma payProposer_upholds (hI : IgnoresPayments I) (block : Block) (amount : Gwei) :
    Upholds I (fun _ => True) (payProposer block amount) :=
  (creditProposer_upholds hI _ _).bind fun _ _ => addManualReward_upholds hI _ _

lemma creditSlashing_upholds (hI : IgnoresSlashings I) (v : ValidatorIndex) (amount : Gwei) :
    Upholds I (fun _ => True) (creditSlashing v amount) :=
  .get_bind fun _ _ => .fault_bind fun _ _ => .modify fun b hb => hI b _ hb

lemma creditSync_upholds (hI : IgnoresSync I) (v : ValidatorIndex) (amount : Gwei) :
    Upholds I (fun _ => True) (creditSync v amount) :=
  .get_bind fun _ _ => .fault_bind fun _ _ => .modify fun b hb => hI b _ hb

lemma addAttesterReward_upholds (hI : IgnoresTallies I) (v : ValidatorIndex) (amount : Gwei) :
    Upholds I (fun _ => True) (addAttesterReward v amount) :=
  .get_bind fun _ _ => .lift_bind fun _ _ => .fault_bind fun _ _ => .get_bind fun _ _ =>
    .fault_bind fun _ _ => .modify fun b hb => hI b _ hb

/-! ### Passes of both phases -/

lemma processSlashings_upholds (hI : IgnoresSlashings I) (share : ShareRule) :
    Upholds I (fun _ => True) (processSlashings share) := by
  refine .get_bind fun b _ => .forM fun block _ => .forM fun v _ => ?_
  refine .get_bind fun b _ => .lift_bind fun _ _ => .fault_bind fun _ _ => ?_
  exact (creditSlashing_upholds hI _ _).bind fun _ _ => creditSlashing_upholds hI _ _

lemma indexOpportunities_upholds (hI : IgnoresOpportunities I) :
    Upholds I (fun _ => True) indexOpportunities :=
  .get_bind fun _ _ => .forM fun _ _ => .get_bind fun _ _ => .lift_bind fun _ _ =>
    .modify fun b hb => hI b _ hb

end Bundle

/-! ### Passes before Altair -/

namespace Phase0

lemma payInclusion_upholds (hI : IgnoresPayments I) (credit : Credit) :
    Upholds I (fun _ => True) (payInclusion credit) := by
  unfold payInclusion
  split
  · exact .get_bind fun _ _ => .lift_bind fun _ _ => (creditProposer_upholds hI _ _).bind fun _ _ =>
      addManualReward_upholds hI _ _
  · exact .pure trivial

lemma processMaxRewards_upholds
    (hadd : ∀ v amount, Upholds I (fun _ => True) (addAttesterReward v amount)) :
    Upholds I (fun _ => True) processMaxRewards :=
  .get_bind fun _ _ => .forM fun _ _ => .get_bind fun _ _ => .lift_bind fun _ _ =>
    .lift_bind fun _ _ => hadd _ _

end Phase0

/-! ### Passes since Altair -/

namespace Altair

lemma processSyncAggregates_upholds (hI : IgnoresPayments I) :
    Upholds I (fun _ => True) processSyncAggregates := by
  refine .get_bind fun b _ => .fault_bind fun _ _ => .fault_bind fun _ _ => .forM fun block _ => ?_
  unfold paySyncAggregate
  split
  · exact .pure trivial
  · exact .fault_bind fun _ _ => payProposer_upholds hI _ _

lemma includeVote_upholds (hI : IgnoresPayments I) (block : Block) (epoch : Epoch) (flags : Flags)
    (acc : Earned × Nat) (v : ValidatorIndex) :
    Upholds I (fun _ => True) (includeVote block epoch flags acc v) := by
  refine .get_bind fun _ _ => .lift_bind fun _ _ => (countVote_upholds hI _).bind fun _ _ => ?_
  split
  · exact (countNewVote_upholds hI _).bind fun _ _ => .pure trivial
  · exact .pure trivial

lemma includeAttestation_upholds (hI : IgnoresPayments I) (block : Block) (earned : Earned)
    (a : Attestation) : Upholds I (fun _ => True) (includeAttestation block earned a) := by
  refine .get_bind fun b _ => ?_
  dsimp only
  split
  · exact .pure trivial
  · split
    · refine .lift_bind fun _ _ => .lift_bind fun _ _ => .lift_bind fun _ _ => ?_
      exact (Upholds.foldlM fun v _ acc => includeVote_upholds hI block _ _ acc v).bind fun _ _ =>
        (payProposer_upholds hI block _).bind fun _ _ => .pure trivial
    · exact .pure trivial

lemma processIncludedVotes_upholds (hI : IgnoresPayments I) :
    Upholds I (fun _ => True) processIncludedVotes := by
  refine .get_bind fun b _ => Upholds.bind (R := fun _ => True) ?_ fun _ _ => .pure trivial
  exact .foldlM fun block _ earned => .foldlM fun a _ earned =>
    includeAttestation_upholds hI block earned a

lemma processMaxRewards_upholds
    (hadd : ∀ v amount, Upholds I (fun _ => True) (addAttesterReward v amount)) :
    Upholds I (fun _ => True) processMaxRewards :=
  .get_bind fun _ _ => .fault_bind fun _ _ => .forM fun _ _ => .get_bind fun _ _ =>
    .lift_bind fun _ _ => .lift_bind fun _ _ => .fault_bind fun _ _ => .lift_bind fun _ _ =>
      hadd _ _

lemma processSyncCommittee_upholds (hI : IgnoresSync I) :
    Upholds I (fun _ => True) processSyncCommittee := by
  refine .get_bind fun b _ => ?_
  dsimp only
  split
  · exact .pure trivial
  · exact .fault_bind fun _ _ => .fault_bind fun _ _ => .forM fun _ _ => .get_bind fun _ _ =>
      .lift_bind fun _ _ => creditSync_upholds hI _ _

end Altair

end EpochRewards
