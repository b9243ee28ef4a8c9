import EpochRewards.Proofs.Contracts
import EpochRewards.Proofs.Inclusion
import EpochRewards.Proofs.Ledgers
import EpochRewards.Reward.Accounting
import Mathlib.Logic.Relation

/-!
Changes of bundles.

Passes change figures one by one, and one that fails leaves the changes that it has made. There are
few kinds of changes, so a property that each kind preserves holds after any number of passes,
whether they succeed or not.
-/

namespace EpochRewards

/-! ### Flags in order -/

/-- No flag without the ones before it. -/
structure Flags.Ordered (f : Flags) : Prop where
  target : f.head = true → f.target = true
  source : f.target = true → f.source = true

lemma Flags.ordered_none : Flags.none.Ordered := ⟨nofun, nofun⟩

lemma Bundle.voteFlags_ordered (b : Bundle) (data : VoteData) (delay : Nat) (canonical : Canonical)
    (head : Root) : (b.voteFlags data delay canonical head).Ordered where
  target h := decide_eq_true (of_decide_eq_true h).1
  source h := decide_eq_true (of_decide_eq_true h).1

/-- A balance counts for the flags in their order, up to the first one that is missing. -/
lemma Flags.Ordered.earned_prefix {f : Flags} (h : f.Ordered) :
    Flag.all.filter f.has <+: Flag.all := by
  obtain ⟨source, target, head⟩ := f
  obtain ⟨htarget, hsource⟩ := h
  cases source with
  | false =>
    obtain rfl : target = false := Bool.eq_false_iff.2 fun h => nomatch hsource h
    obtain rfl : head = false := Bool.eq_false_iff.2 fun h => nomatch htarget h
    decide
  | true =>
    cases target with
    | false =>
      obtain rfl : head = false := Bool.eq_false_iff.2 fun h => nomatch htarget h
      decide
    | true => cases head <;> decide

namespace Bundle

/-! ### Changes -/

/-- A change of one figure, or of the figures about one vote. -/
inductive Change (b : Bundle) : Bundle → Prop
  /-- to what proposers are paid or to what blocks include -/
  | payment (ledger : Ledger Gwei) {blocks : Ledger BlockTally}
      (kept : ∀ s, (b.blockTallies.get? s).isSome → (blocks.get? s).isSome) :
      Change b { b with maxProposerRewards := ledger, blockTallies := blocks }
  | slashing (ledger : Ledger Gwei) : Change b { b with maxSlashingRewards := ledger }
  | seat (ledger : Ledger Gwei) : Change b { b with maxSyncRewards := ledger }
  | opportunity {slot : Slot} {delay : Option Nat}
      (scanned : b.window.scan slot b.network.slotsPerEpoch.val 1 = .ok delay) :
      Change b { b with opportunities := b.opportunities.insert slot delay }
  | aggregate : Change b { b with attestationCount := b.attestationCount + 1 }
  | maximum {v : ValidatorIndex} {t : ValidatorTally} (tally : b.tallies[v]? = some t)
      (amount : Gwei) : Change b { b with
        tallies := b.tallies.set v { t with maxAttesterReward := t.maxAttesterReward + amount } }
  | credit {v : ValidatorIndex} {t : ValidatorTally} (tally : b.tallies[v]? = some t)
      (unseen : t.inclusionDelay = none) (delay : Nat) {flags : Flags} (ordered : flags.Ordered) :
      Change b { b with tallies := b.tallies.set v ⟨t.maxAttesterReward, some delay, flags⟩ }
  /-- the balance of a validator is added for the first flags -/
  | support {flags : List Flag} (earned : flags <+: Flag.all) (amount : Gwei) {totals : FlagTotals}
      (balance : ∀ f, totals.get f = b.attestingBalance.get f + flags.count f * amount) :
      Change b { b with attestingBalance := totals }

/-- Any number of changes. -/
abbrev Changes : Bundle → Bundle → Prop := Relation.ReflTransGen Change

end Bundle

namespace Pass

open EpochRewards.Bundle (Change)

/-- From `b` the pass makes changes, and no others before it fails. -/
def Makes {α : Type} (m : Pass α) (b : Bundle) : Prop :=
  Meets (fun _ => b.Changes) (fun _ => b.Changes) (m b)

variable {α β : Type} {b c : Bundle}

namespace Makes

lemma pure (a : α) : Makes (Pure.pure a) b := Meets.pure .refl

lemma bind {m : Pass α} {f : α → Pass β} (hm : Makes m b)
    (hf : ∀ a c, m b = .ok a c → Makes (f a) c) : Makes (m >>= f) b := by
  refine Meets.bind hm fun a c hc hbc => ?_
  exact Meets.imp (hf a c hc) (fun _ _ hcd => hbc.trans hcd) fun _ _ hcd => hbc.trans hcd

lemma get_bind {f : Bundle → Pass β} (hf : Makes (f b) b) : Makes (get >>= f) b := hf

lemma lift_bind {x : Calc α} {f : α → Pass β} (hf : ∀ a, x = .ok a → Makes (f a) b) :
    Makes (liftM x >>= f) b := Meets.lift_bind (fun _ _ => .refl) hf

lemma fault_bind {x : Except Fault α} {f : α → Pass β} (hf : ∀ a, x = .ok a → Makes (f a) b) :
    Makes (liftM x >>= f) b := Meets.fault_bind (fun _ _ => .refl) hf

lemma modify {f : Bundle → Bundle} (hf : b.Change (f b)) : Makes (modify f) b :=
  Meets.modify (.single hf)

lemma forM {f : α → Pass PUnit} {xs : List α} (hf : ∀ x c, Makes (f x) c) :
    Makes (xs.forM f) b := by
  induction xs generalizing b with
  | nil => exact pure _
  | cons x xs ih => exact (hf x b).bind fun _ _ _ => ih

lemma foldlM {f : β → α → Pass β} {xs : List α} {y : β} (hf : ∀ x y c, Makes (f y x) c) :
    Makes (xs.foldlM f y) b := by
  induction xs generalizing b y with
  | nil => exact pure _
  | cons x xs ih =>
    rw [List.foldlM_cons]
    exact (hf x y b).bind fun _ _ _ => ih

lemma mapM {f : α → Pass β} {xs : List α} (hf : ∀ x c, Makes (f x) c) : Makes (xs.mapM f) b := by
  induction xs generalizing b with
  | nil => exact pure _
  | cons x xs ih =>
    rw [List.mapM_cons]
    exact (hf x b).bind fun _ _ _ => ih.bind fun _ _ _ => pure _

/-- What a successful pass makes of a bundle. -/
lemma changes_of_ok {m : Pass α} {a : α} (hm : Makes m b) (h : m b = .ok a c) : b.Changes c := by
  unfold Makes at hm
  rw [h] at hm
  exact hm

/-- What a pass has made of a bundle when it fails. -/
lemma changes_of_error {m : Pass α} {e : Failure RewardError} (hm : Makes m b)
    (h : m b = .error e c) : b.Changes c := by
  unfold Makes at hm
  rw [h] at hm
  exact hm

end Makes

end Pass

namespace Bundle

open Pass

variable {b : Bundle}

/-! ### Changes of single figures -/

lemma makes_setBlockTally (s : Slot) (t : BlockTally) : Makes (setBlockTally s t) b :=
  .modify (.payment b.maxProposerRewards fun _ hs => b.blockTallies.isSome_insert s t hs)

lemma makes_countVote (s : Slot) : Makes (countVote s) b :=
  .get_bind <| .lift_bind fun _ _ => makes_setBlockTally s _

lemma makes_countNewVote (s : Slot) : Makes (countNewVote s) b :=
  .get_bind <| .lift_bind fun _ _ => makes_setBlockTally s _

lemma makes_addManualReward (s : Slot) (amount : Gwei) : Makes (addManualReward s amount) b :=
  .get_bind <| .lift_bind fun _ _ => .fault_bind fun _ _ => makes_setBlockTally s _

lemma makes_creditProposer (v : ValidatorIndex) (amount : Gwei) :
    Makes (creditProposer v amount) b :=
  .get_bind <| .fault_bind fun _ _ => .modify (.payment _ fun _ hs => hs)

lemma makes_creditSlashing (v : ValidatorIndex) (amount : Gwei) :
    Makes (creditSlashing v amount) b :=
  .get_bind <| .fault_bind fun _ _ => .modify (.slashing _)

lemma makes_creditSync (v : ValidatorIndex) (amount : Gwei) : Makes (creditSync v amount) b :=
  .get_bind <| .fault_bind fun _ _ => .modify (.seat _)

lemma makes_payProposer (block : Block) (amount : Gwei) : Makes (payProposer block amount) b :=
  (makes_creditProposer _ _).bind fun _ _ _ => makes_addManualReward _ _

lemma makes_setTally {v : ValidatorIndex} {t : ValidatorTally}
    (h : b.Change { b with tallies := b.tallies.set v t }) : Makes (setTally v t) b := by
  refine .get_bind <| .fault_bind fun tallies htallies => ?_
  obtain ⟨-, rfl⟩ := tallied_ok.1 htallies
  exact .modify h

lemma makes_addAttesterReward (v : ValidatorIndex) (amount : Gwei) :
    Makes (addAttesterReward v amount) b := by
  refine .get_bind <| .lift_bind fun t ht => .fault_bind fun total htotal => ?_
  obtain ⟨-, rfl⟩ := Word.add_ok.1 htotal
  exact makes_setTally (.maximum (Calc.orFail_ok.1 ht) amount)

/-- A balance that does not fit under one flag has been added for those before it. -/
lemma makes_addAttesting {flags : List Flag} (hflags : flags <+: Flag.all) (amount : Gwei) :
    Makes (flags.forM (addAttesting amount)) b := by
  have hsupport {done : List Flag} {c : Bundle} (hdone : done <+: flags)
      (hc : c = { b with attestingBalance := c.attestingBalance } ∧
        ∀ f, c.attestingBalance.get f = b.attestingBalance.get f + done.count f * amount) :
      b.Changes c := by
    rw [hc.1]
    exact .single (.support (hdone.trans hflags) amount hc.2)
  refine (Meets.forM (J := fun done c => c = { b with attestingBalance := c.attestingBalance } ∧
    ∀ f, c.attestingBalance.get f = b.attestingBalance.get f + done.count f * amount)
      ⟨rfl, fun f => by simp⟩ fun done flag hdone c hc => ?_).mono fun _ c _ hc =>
        hsupport List.prefix_rfl hc
  refine .get_bind <| .fault_bind
    (fun _ _ => hsupport ((List.prefix_append _ _).trans hdone) hc) fun total htotal => .modify ?_
  obtain ⟨-, rfl⟩ := Word.add_ok.1 htotal
  refine ⟨by rw [hc.1], fun f => ?_⟩
  change (c.attestingBalance.set _ flag).get f = _
  rw [get_set_totals, hc.2, hc.2, List.count_append, List.count_singleton]
  by_cases hf : f = flag
  · subst hf
    simp [Nat.succ_mul, Nat.add_assoc]
  · simp [hf, Ne.symm hf]

/-! ### Passes of both phases -/

lemma makes_processSlashings (share : ShareRule) : Makes (processSlashings share) b :=
  .get_bind <| .forM fun _ _ => .forM fun _ _ => .get_bind <| .lift_bind fun _ _ =>
    .fault_bind fun _ _ => (makes_creditSlashing _ _).bind fun _ _ _ => makes_creditSlashing _ _

lemma makes_indexOpportunities : Makes indexOpportunities b :=
  .get_bind <| .forM fun _ _ => .get_bind <| .lift_bind fun _ hdelay =>
    .modify (.opportunity hdelay)

lemma makes_creditVote (block : Block) (delay : Nat) {flags : Flags} (hflags : flags.Ordered)
    (v : ValidatorIndex) : Makes (creditVote block delay flags v) b := by
  refine .get_bind <| .lift_bind fun t ht => .lift_bind fun validator _ =>
    (makes_countVote _).bind fun _ c hc => ?_
  split
  · exact .pure _
  · next hunseen =>
    refine (makes_countNewVote _).bind fun _ d hd => ?_
    have htally : d.tallies[v]? = some t := by
      obtain ⟨_, -, rfl⟩ := countNewVote_ok hd
      obtain ⟨_, -, rfl⟩ := countVote_ok hc
      exact Calc.orFail_ok.1 ht
    have hnone : t.inclusionDelay = none := by simpa using hunseen
    exact (makes_setTally (.credit htally hnone delay hflags)).bind fun _ _ _ =>
      (makes_addAttesting hflags.earned_prefix _).bind fun _ _ _ => .pure _

lemma makes_creditAttestation (canonical : Canonical) (block : Block) (a : Attestation) :
    Makes (creditAttestation canonical block a) b := by
  refine .get_bind ?_
  dsimp only
  split
  · exact .lift_bind fun _ _ => .lift_bind fun _ _ => Makes.bind (.modify .aggregate) fun _ _ _ =>
      (Makes.mapM fun v _ => makes_creditVote block _ (voteFlags_ordered _ _ _ _ _) v).bind
        fun _ _ _ => .pure _
  · exact .pure _

lemma makes_processAttestations : Makes processAttestations b :=
  .get_bind <| .lift_bind fun _ _ => (Makes.mapM fun block _ =>
    (Makes.mapM fun a _ => makes_creditAttestation _ block a).bind fun _ _ _ => .pure _).bind
      fun _ _ _ => .pure _

end Bundle

open EpochRewards.Bundle Pass

variable {b : Bundle}

/-! ### Passes before Altair -/

namespace Phase0

lemma makes_payInclusion (credit : Credit) : Makes (payInclusion credit) b := by
  unfold payInclusion
  split
  · exact .get_bind <| .lift_bind fun _ _ => (makes_creditProposer _ _).bind fun _ _ _ =>
      makes_addManualReward _ _
  · exact .pure _

lemma makes_processMaxRewards : Makes processMaxRewards b :=
  .get_bind <| .forM fun _ _ => .get_bind <| .lift_bind fun _ _ => .lift_bind fun _ _ =>
    makes_addAttesterReward _ _

lemma makes_prepare : Makes prepare b := by
  refine .get_bind ?_
  split
  · exact (makes_processSlashings _).bind fun _ _ _ => makes_indexOpportunities.bind fun _ _ _ =>
      (makes_processAttestations.bind fun _ _ _ => .forM fun credit _ =>
        makes_payInclusion credit).bind fun _ _ _ => makes_processMaxRewards
  · exact .pure _

end Phase0

/-! ### Passes since Altair -/

namespace Altair

lemma makes_processSyncAggregates : Makes processSyncAggregates b := by
  refine .get_bind <| .fault_bind fun _ _ => .fault_bind fun _ _ => .forM fun block c => ?_
  unfold paySyncAggregate
  split
  · exact .pure _
  · exact .fault_bind fun _ _ => makes_payProposer _ _

lemma makes_processSyncCommittee : Makes processSyncCommittee b := by
  refine .get_bind ?_
  split
  · exact .pure _
  · exact .fault_bind fun _ _ => .fault_bind fun _ _ => .forM fun _ _ => .get_bind <|
      .lift_bind fun _ _ => makes_creditSync _ _

lemma makes_includeVote (block : Block) (epoch : Epoch) (flags : Flags) (acc : Earned × Nat)
    (v : ValidatorIndex) : Makes (includeVote block epoch flags acc v) b := by
  refine .get_bind <| .lift_bind fun _ _ => (makes_countVote _).bind fun _ _ _ => ?_
  split
  · exact (makes_countNewVote _).bind fun _ _ _ => .pure _
  · exact .pure _

lemma makes_includeAttestation (block : Block) (earned : Earned) (a : Attestation) :
    Makes (includeAttestation block earned a) b := by
  refine .get_bind ?_
  dsimp only
  split
  · exact .pure _
  · split
    · exact .lift_bind fun _ _ => .lift_bind fun _ _ => .lift_bind fun _ _ =>
        (Makes.foldlM fun v acc _ => makes_includeVote block _ _ acc v).bind fun _ _ _ =>
          (makes_payProposer _ _).bind fun _ _ _ => .pure _
    · exact .pure _

lemma makes_processIncludedVotes : Makes processIncludedVotes b :=
  .get_bind <| (Makes.foldlM fun block _ _ => .foldlM fun a earned _ =>
    makes_includeAttestation block earned a).bind fun _ _ _ => .pure _

lemma makes_processMaxRewards : Makes processMaxRewards b :=
  .get_bind <| .fault_bind fun _ _ => .forM fun _ _ => .get_bind <| .lift_bind fun _ _ =>
    .lift_bind fun _ _ => .fault_bind fun _ _ => .lift_bind fun _ _ => makes_addAttesterReward _ _

lemma makes_prepare : Makes prepare b := by
  refine .get_bind ?_
  split
  · exact (makes_processSlashings _).bind fun _ _ _ =>
      makes_processSyncAggregates.bind fun _ _ _ => makes_indexOpportunities.bind fun _ _ _ =>
        makes_processAttestations.bind fun _ _ _ => makes_processIncludedVotes.bind fun _ _ _ =>
          makes_processMaxRewards.bind fun _ _ _ => makes_processSyncCommittee
  · exact .pure _

end Altair

/-- The passes of either set of rules make changes and nothing else. -/
lemma Bundle.makes_prepare : Makes prepare b := by
  refine .get_bind ?_
  split
  · exact Altair.makes_prepare
  · exact Phase0.makes_prepare

end EpochRewards
