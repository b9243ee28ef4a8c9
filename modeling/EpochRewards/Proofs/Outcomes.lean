import EpochRewards.Proofs.Balances
import EpochRewards.Proofs.Failures
import EpochRewards.Proofs.Runs
import Mathlib

/-!
How the resolution of a validator ends.

A record draws on a tally, two registries, two lists of balances and the ledgers of the passes, which
may differ in length. Which of them have the validator decides whether there is a record; the
passes, however often they were run and wherever they failed, have no part in it.
-/

namespace EpochRewards

namespace Window

/-- The last snapshot has the validator in its registry and among its balances. -/
def Covers (w : Window) (v : ValidatorIndex) : Prop :=
  v < w.next.validators.length ∧ v < w.next.balances.length

/-- The change of balance is a signed word; it does not matter if no snapshot precedes the last. -/
def Expressible (w : Window) (v : ValidatorIndex) : Prop :=
  w.current.isPlaceholder = false →
    -(Word.signedBound : Int) ≤ w.balanceChange v ∧ w.balanceChange v < Word.signedBound

/-! ### The ways to end -/

/-- How a computation about a validator may end: in an overflow of its arithmetic, in one of two
errors, or in a result. -/
inductive Outcome (w : Window) (v : ValidatorIndex) {α : Type} : Calc α → Prop
  | overflow {f : Fault} (h : f.IsOverflow) : Outcome w v (.error (.fault f))
  | outside (h : ¬ w.Covers v) : Outcome w v (.error (.error (.validatorOutsideBundle v)))
  | conversion (covered : w.Covers v) (h : ¬ w.Expressible v) :
      Outcome w v (.error (.error .deltaOutOfRange))
  | result (covered : w.Covers v) (expressible : w.Expressible v) (a : α) : Outcome w v (.ok a)

namespace Outcome

variable {α β : Type} {w : Window} {v : ValidatorIndex} {f : α → Calc β}

/-- A step that can only overflow does not decide how the steps after it end. -/
lemma bind {x : Calc α} (hx : Calc.Errs Failure.IsOverflow x)
    (hf : ∀ a, x = .ok a → w.Outcome v (f a)) : w.Outcome v (x >>= f) := by
  cases x with
  | ok a => exact hf a rfl
  | error e =>
    cases e with
    | fault e => exact .overflow (hx _ rfl)
    | error e => exact (hx _ rfl).elim

lemma fault_bind {x : Except Fault α} (hx : Calc.Errs Fault.IsOverflow x)
    (hf : ∀ a, x = .ok a → w.Outcome v (f a)) : w.Outcome v ((liftM x : Calc α) >>= f) :=
  bind (.fault hx) fun a ha => hf a (Calc.fault_ok.1 ha)

/-- Nor do steps that can only overflow after it was decided. -/
lemma then_bind {x : Calc α} (hx : w.Outcome v x)
    (hf : ∀ a, Calc.Errs Failure.IsOverflow (f a)) : w.Outcome v (x >>= f) := by
  cases hx with
  | overflow h => exact .overflow h
  | outside h => exact .outside h
  | conversion covered h => exact .conversion covered h
  | result covered expressible a =>
    change w.Outcome v (f a)
    cases h : f a with
    | ok b => exact .result covered expressible b
    | error e =>
      cases e with
      | fault e => exact .overflow (hf a _ h)
      | error e => exact (hf a _ h).elim

variable {x : Calc α}

lemma ok_iff (h : w.Outcome v x) (hcalm : ∀ f, x = .error (.fault f) → ¬ f.IsOverflow) :
    (∃ a, x = .ok a) ↔ w.Covers v ∧ w.Expressible v := by
  cases h with
  | overflow h => exact (hcalm _ rfl h).elim
  | outside h => exact ⟨nofun, fun hv => (h hv.1).elim⟩
  | conversion covered h => exact ⟨nofun, fun hv => (h hv.2).elim⟩
  | result covered expressible a => exact ⟨fun _ => ⟨covered, expressible⟩, fun _ => ⟨a, rfl⟩⟩

lemma outside_iff (h : w.Outcome v x) (hcalm : ∀ f, x = .error (.fault f) → ¬ f.IsOverflow) :
    x = .error (.error (.validatorOutsideBundle v)) ↔ ¬ w.Covers v := by
  cases h with
  | overflow h => exact (hcalm _ rfl h).elim
  | outside h => exact ⟨fun _ => h, fun _ => rfl⟩
  | conversion covered _ => exact ⟨nofun, fun hv => (hv covered).elim⟩
  | result covered _ _ => exact ⟨nofun, fun hv => (hv covered).elim⟩

lemma conversion_iff (h : w.Outcome v x) (hcalm : ∀ f, x = .error (.fault f) → ¬ f.IsOverflow) :
    x = .error (.error .deltaOutOfRange) ↔ w.Covers v ∧ ¬ w.Expressible v := by
  cases h with
  | overflow h => exact (hcalm _ rfl h).elim
  | outside h => exact ⟨nofun, fun hv => (h hv.1).elim⟩
  | conversion covered h => exact ⟨fun _ => ⟨covered, h⟩, fun _ => rfl⟩
  | result _ expressible _ => exact ⟨nofun, fun hv => (hv.2 expressible).elim⟩

end Outcome

end Window

namespace Bundle

open Window

variable {b : Bundle} {v : ValidatorIndex}

/-! ### Steps of a resolution -/

lemma epochReward_outcome (hv : v < b.window.next.validators.length) :
    b.window.Outcome v (b.epochReward v) := by
  unfold epochReward
  dsimp only
  cases hafter : b.window.next.balance? v with
  | none =>
    exact .outside fun hcovers => Nat.not_lt.2 (List.getElem?_eq_none_iff.1 hafter) hcovers.2
  | some after =>
    have hcovers : b.window.Covers v := ⟨hv, (List.getElem?_eq_some_iff.1 hafter).1⟩
    have hbalance : b.window.next.balanceOf v = after := by rw [Snapshot.balanceOf, hafter]; rfl
    cases hplaceholder : b.window.current.isPlaceholder with
    | true =>
      have hexpressible : b.window.Expressible v := fun hthere =>
        Bool.noConfusion (hplaceholder.symm.trans hthere)
      exact .result hcovers hexpressible 0
    | false =>
      refine Outcome.fault_bind Word.errs_sum fun amount hamount => ?_
      have hchange : (after : Int) - ((b.window.current.balance? v).getD 0 : Nat) + amount
          = b.window.balanceChange v := by
        rw [withdrawn_ok hamount, Window.balanceChange, hbalance]
        rfl
      rw [hchange, signed?]
      split
      · next hfits => exact .result hcovers (fun _ => hfits) _
      · next hfits => exact .conversion hcovers fun h => hfits (h hplaceholder)

lemma errs_addProposerReward (b : Bundle) (acc : Option Gwei × Gwei) (block : Block) :
    Calc.Errs Fault.IsOverflow (b.addProposerReward acc block) := by
  obtain ⟨reported, computed⟩ := acc
  unfold addProposerReward
  cases block.report with
  | none =>
    cases b.blockTallies.get? block.slot with
    | none => exact .ok _
    | some t => exact .bind (.ok _) fun _ _ => .bind Word.errs_add fun _ _ => .ok _
  | some r =>
    cases b.blockTallies.get? block.slot with
    | none => exact .bind (.map Word.errs_add) fun _ _ => .ok _
    | some t => exact .bind (.map Word.errs_add) fun _ _ => .bind Word.errs_add fun _ _ => .ok _

lemma errs_proposerRewards (b : Bundle) (v : ValidatorIndex) (blocks : List Block) :
    Calc.Errs Fault.IsOverflow (b.proposerRewards v blocks) :=
  (Calc.Errs.foldlM (J := fun _ _ => True) trivial fun _ block _ acc _ =>
    ⟨errs_addProposerReward b acc block, fun _ _ => trivial⟩).1

lemma errs_inclusionDelay (b : Bundle) (v : ValidatorIndex) :
    Calc.Errs Fault.IsOverflow (b.inclusionDelay v) := by
  unfold inclusionDelay
  split
  · exact .ok _
  · exact Word.errs_add

lemma record_outcome (hv : v < b.window.next.validators.length) {t : ValidatorTally}
    (ht : b.tally v = .ok t) (c : RewardComponents) : b.window.Outcome v (b.record v c) := by
  have hregistered : b.window.next.registered v = .ok b.window.next.validators[v] := by
    rw [Snapshot.registered, Snapshot.validator?, List.getElem?_eq_getElem hv]
    rfl
  refine Outcome.bind (ht ▸ .ok _) fun _ _ => Outcome.bind (hregistered ▸ .ok _) fun _ _ =>
    Outcome.fault_bind Word.errs_add fun _ _ => Outcome.fault_bind Word.errs_add fun _ _ =>
      Outcome.fault_bind Word.errs_add fun _ _ => (epochReward_outcome hv).then_bind fun _ => ?_
  exact .bind (.fault (errs_inclusionDelay b v)) fun _ _ => .ok _

/-- A validator without a tally is not registered either. -/
lemma tally_outcome {α : Type} (hlength : b.tallies.length = b.window.next.validators.length)
    {f : ValidatorTally → Calc α} (hf : v < b.window.next.validators.length →
      ∀ t, b.tally v = .ok t → b.window.Outcome v (f t)) :
    b.window.Outcome v (b.tally v >>= f) := by
  by_cases hv : v < b.window.next.validators.length
  · obtain ⟨t, ht⟩ : ∃ t, b.tallies[v]? = some t :=
      Option.isSome_iff_exists.1 (by rwa [isSome_getElem?, hlength])
    have htally : b.tally v = .ok t := Calc.orFail_ok.2 ht
    rw [htally]
    exact hf hv t htally
  · have hnone : b.tally v = .error (.error (.validatorOutsideBundle v)) := by
      rw [tally, List.getElem?_eq_none (hlength ▸ Nat.not_lt.1 hv)]
      rfl
    rw [hnone]
    exact .outside fun hcovers => hv hcovers.1

end Bundle

open EpochRewards.Bundle Window

variable {b : Bundle} {v : ValidatorIndex}

lemma Altair.errs_baseReward (b : Bundle) (v : ValidatorIndex) (active : Gwei) :
    Calc.Errs Failure.Tame (Altair.baseReward b v active) :=
  .bind (.orFail fun _ => trivial) fun _ _ =>
    .bind (.fault (Network.errs_baseRewardPerIncrement _ _)) fun _ _ => .fault Word.errs_mul

lemma Phase0.errs_baseReward (b : Bundle) (v : ValidatorIndex) :
    Calc.Errs Failure.Tame (Phase0.baseReward b v) :=
  .bind (.orFail fun _ => trivial) fun _ _ => .fault (Network.errs_phase0BaseReward _ _ _)

lemma Altair.record_outcome (hlength : b.tallies.length = b.window.next.validators.length) :
    b.window.Outcome v (Altair.record b v) := by
  refine tally_outcome hlength fun hv t ht => Outcome.fault_bind (errs_proposerRewards _ _ _)
    fun ⟨reported, computed⟩ _ => ?_
  dsimp only
  split
  · exact Outcome.bind (.ok _) fun base _ => Bundle.record_outcome hv ht _
  · next hno =>
    refine Outcome.bind ?_ fun base _ => Bundle.record_outcome hv ht _
    rintro (f | e) h
    · exact Altair.errs_baseReward b v _ _ h
    · exact (hno e h).elim

lemma Phase0.record_outcome (hlength : b.tallies.length = b.window.next.validators.length) :
    b.window.Outcome v (Phase0.record b v) := by
  refine tally_outcome hlength fun hv t ht => Outcome.fault_bind (errs_proposerRewards _ _ _)
    fun ⟨reported, computed⟩ _ => ?_
  dsimp only
  split
  · exact Outcome.bind (.ok _) fun base _ => Bundle.record_outcome hv ht _
  · next hno =>
    refine Outcome.bind ?_ fun base _ => Bundle.record_outcome hv ht _
    rintro (f | e) h
    · exact Phase0.errs_baseReward b v _ h
    · exact (hno e h).elim

namespace Bundle

lemma resolve_outcome (hlength : b.tallies.length = b.window.next.validators.length)
    (v : ValidatorIndex) : b.window.Outcome v (b.resolve v) := by
  unfold resolve
  split
  · exact Altair.record_outcome hlength
  · exact Phase0.record_outcome hlength

/-! ### Records -/

variable {net : Network} {preference : ReportPreference} {w : Window}

/-- When there is a record and why there is none, and what the record adds up to. -/
structure RecordDecided (w : Window) (v : ValidatorIndex) (result : Calc ValidatorRecord) :
    Prop where
  recorded_iff : (∃ rec, result = .ok rec) ↔ w.Covers v ∧ w.Expressible v
  outside_iff : result = .error (.error (.validatorOutsideBundle v)) ↔ ¬ w.Covers v
  conversion_iff : result = .error (.error .deltaOutOfRange) ↔ w.Covers v ∧ ¬ w.Expressible v
  sum : ∀ rec, result = .ok rec → rec.maxReward
    = rec.attestationReward + rec.syncReward + rec.proposerReward + rec.slashingReward

/-- **When a record exists.** Whatever passes were run before, successful or not, a validator has a
record exactly if the last snapshot covers it and its change of balance is a signed word. Else the
error says which of both is not so. -/
theorem Reached.record_decided (h : Reached net preference w b) (v : ValidatorIndex)
    (hcalm : ∀ f, b.resolve v = .error (.fault f) → ¬ f.IsOverflow) :
    RecordDecided w v (b.resolve v) := by
  have houtcome : w.Outcome v (b.resolve v) := by
    rw [← h.window]
    exact resolve_outcome (by rw [h.length_tallies, h.window]) v
  exact {
    recorded_iff := houtcome.ok_iff hcalm
    outside_iff := houtcome.outside_iff hcalm
    conversion_iff := houtcome.conversion_iff hcalm
    sum := fun rec hrec => (resolve_figures hrec).max }

/-- A vote names a committee that does not exist. Of the three validators one gains more than a
signed word can say, and another has no balance. -/
def unevenWindow : Window :=
  let validator : Validator := ⟨.zero, 32, false, 0, 0, farFuture, farFuture⟩
  let vote : Attestation := ⟨.ofBits [true], ⟨4, 7, .zero, ⟨0, .zero⟩, ⟨1, .zero⟩⟩⟩
  let snapshot (epoch : Epoch) (balances : List Gwei) (votes : List Attestation) : Snapshot :=
    { Snapshot.placeholder epoch (4 * epoch + 3) with
      stateRoot := .ofNat 32 1
      validators := [validator, validator, validator]
      balances
      blockRoots := List.replicate 16 .zero
      blocks := [{ Block.missed (4 * epoch + 1) 0 with proposed := true, attestations := votes }] }
  ⟨snapshot 1 [32] [vote], snapshot 2 [32] [], snapshot 3 [33, Word.signedBound] []⟩

/-- What `f` reads off the bundle that a failed run of the passes leaves. -/
def leftovers {α : Type} (opened : Except Fault Bundle) (f : Bundle → α) : Option α :=
  match opened with
  | .error _ => none
  | .ok b =>
    match prepare b with
    | .ok _ _ => none
    | .error _ c => some (f c)

lemma exists_of_leftovers {α : Type} {opened : Except Fault Bundle} {f : Bundle → α} {x : α}
    (h : leftovers opened f = some x) :
    ∃ b e c, opened = .ok b ∧ prepare b = .error e c ∧ f c = x := by
  unfold leftovers at h
  split at h
  · cases h
  · next b =>
    split at h
    · cases h
    · next e c hrun => exact ⟨b, e, c, rfl, hrun, Option.some.inj h⟩

def failureOf {α : Type} : Calc α → Option (Failure RewardError)
  | .ok _ => none
  | .error e => some e

lemma failureOf_eq {α : Type} {x : Calc α} {e : Failure RewardError} (h : failureOf x = some e) :
    x = .error e := by
  cases x with
  | ok a => cases h
  | error e' => rw [Option.some.inj h]

lemma unevenWindow_failures :
    leftovers (openAltair .fourSlots .strictlyPositive unevenWindow)
        (fun c => [0, 1, 2].map fun v => failureOf (c.resolve v))
      = some [none, some (.error .deltaOutOfRange), some (.error (.validatorOutsideBundle 2))] := by
  cbv

/-- A record and both errors after a run of the passes that failed. -/
theorem unevenWindow_decided :
    ∃ b e c, openAltair .fourSlots .strictlyPositive unevenWindow = .ok b ∧
      prepare b = .error e c ∧ ∀ v ∈ [0, 1, 2], RecordDecided unevenWindow v (c.resolve v) := by
  obtain ⟨b, e, c, hopened, hrun, hfailures⟩ := exists_of_leftovers unevenWindow_failures
  have hcalm : ∀ v ∈ [0, 1, 2], ∀ f, c.resolve v ≠ .error (.fault f) := by
    intro v hv f hf
    have hmem : some (.fault f) ∈ [0, 1, 2].map fun v => failureOf (c.resolve v) :=
      List.mem_map.2 ⟨v, hv, by rw [hf]; rfl⟩
    rw [hfailures] at hmem
    simp at hmem
  exact ⟨b, e, c, hopened, hrun, fun v hv =>
    (Reached.failed (.altair hopened) hrun).record_decided v fun f hf => (hcalm v hv f hf).elim⟩

end Bundle

end EpochRewards
