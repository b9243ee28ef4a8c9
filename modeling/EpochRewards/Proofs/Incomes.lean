import EpochRewards.Proofs.Books
import EpochRewards.Proofs.Headroom
import EpochRewards.Proofs.Repeats

/-!
The income of proposers for the votes that the last epoch of a window includes.

However often votes are repeated, the merits that are paid for are all different. They are worth no
more than every flag of every registered validator for the two epochs that votes are paid for.
-/

namespace EpochRewards

open EpochRewards.Bundle

variable {w : Window} {b c : Bundle}

/-- Quotients with one divisor add up to no more than the quotient of the sum. -/
lemma sum_div_le {α : Type} (f : α → Nat) (d : Nat) (as : List α) :
    (as.map fun a => f a / d).sum ≤ (as.map f).sum / d := by
  induction as with
  | nil => exact Nat.zero_le _
  | cons a as ih =>
    rw [List.map_cons, List.map_cons, List.sum_cons, List.sum_cons]
    exact (Nat.add_le_add_left ih _).trans Nat.div_add_div_le_add_div

namespace Altair

/-! ### The worth of all merits -/

/-- The merits of every validator of the last registry, for every flag and two epochs. -/
def allMerits (w : Window) : List Merit :=
  [w.current.epoch, w.next.epoch].flatMap fun e =>
    (List.range w.next.validators.length).flatMap fun v => Flag.all.map (⟨e, v, ·⟩)

/-- A merit of one of the last two epochs. -/
def Merit.Recent (w : Window) (x : Merit) : Prop :=
  x.epoch = w.current.epoch ∨ x.epoch = w.next.epoch

/-- The base rewards of the last registry at its active balance. -/
def registryBase (b : Bundle) : Gwei :=
  ((List.range b.window.next.validators.length).map (baseRewardOf b)).sum

lemma numerator_flatMap {α : Type} (b : Bundle) (f : α → List Merit) (as : List α) :
    numerator b (as.flatMap f) = (as.map fun a => numerator b (f a)).sum := by
  rw [numerator, List.map_flatMap, List.flatMap_def, List.sum_flatten, List.map_map]
  rfl

lemma numerator_allMerits (b : Bundle) :
    numerator b (allMerits b.window) = 2 * 54 * registryBase b := by
  have hflags (e : Epoch) (v : ValidatorIndex) :
      numerator b (Flag.all.map (⟨e, v, ·⟩)) = baseRewardOf b v * 54 := by
    simp only [numerator, Flag.all, List.map_cons, List.map_nil, List.sum_cons, List.sum_nil,
      Merit.worth, Flag.weight]
    ring
  rw [allMerits, numerator_flatMap]
  simp only [numerator_flatMap, hflags, List.sum_map_mul_right, List.map_cons, List.map_nil,
    List.sum_cons, List.sum_nil]
  rw [registryBase]
  ring

/-- Who is not registered has no base reward. -/
lemma lt_of_baseRewardOf_ne_zero {v : ValidatorIndex} (h : baseRewardOf b v ≠ 0) :
    v < b.window.next.validators.length := by
  by_contra hout
  have hnone : b.window.next.validator? v = none := List.getElem?_eq_none (Nat.le_of_not_lt hout)
  refine h ?_
  rw [baseRewardOf, baseReward, Snapshot.registered, hnone]
  rfl

/-- Merits that are paid for once are worth no more than all there are. -/
lemma numerator_le_allMerits {ms : List Merit} (hnodup : ms.Nodup)
    (hrecent : ∀ x ∈ ms, x.Recent b.window) :
    numerator b ms ≤ numerator b (allMerits b.window) := by
  refine sum_map_le_of_nodup hnodup fun x hx hworth => ?_
  obtain ⟨e, v, f⟩ := x
  have hv : v < b.window.next.validators.length :=
    lt_of_baseRewardOf_ne_zero fun hzero => hworth (by rw [Merit.worth, hzero, Nat.zero_mul])
  have he : e = b.window.current.epoch ∨ e = b.window.next.epoch := hrecent _ hx
  have hf : f ∈ Flag.all := by cases f <;> simp [Flag.all]
  simp only [allMerits, List.mem_flatMap, List.mem_cons, List.not_mem_nil, or_false, List.mem_range,
    List.mem_map, Merit.mk.injEq]
  exact ⟨e, he, v, hv, f, hf, rfl, rfl, rfl⟩

/-! ### What a pass pays -/

/-- The quotients that are paid for aggregates lose against the quotient of all. -/
lemma totalOf_payouts_le_div (b : Bundle) (paid : List Merit) (xs : List (Block × Attestation)) :
    totalOf ((payouts b paid xs).map (Payout.payment b))
      ≤ numerator b ((payouts b paid xs).flatMap (·.merits)) / proposerDenominator := by
  rw [numerator_flatMap, totalOf, List.map_map]
  exact sum_div_le (fun p : Payout => numerator b p.merits) proposerDenominator _

lemma block_of_mem_payouts {paid : List Merit} {xs : List (Block × Attestation)} {p : Payout}
    (h : p ∈ payouts b paid xs) : p.block ∈ xs.map (·.1) := by
  induction xs generalizing paid with
  | nil => cases h
  | cons x xs ih =>
    rcases List.mem_cons.1 h with rfl | h
    · exact List.mem_cons_self
    · exact List.mem_cons_of_mem _ (ih h)

/-- Payments go to proposed blocks of the last snapshot. -/
lemma block_of_mem_rewardedAggregates {x : Block × Attestation}
    (h : x ∈ rewardedAggregates b) : x.1 ∈ b.window.next.proposedBlocks := by
  obtain ⟨block, hblock, hx⟩ := List.mem_flatMap.1 h
  obtain ⟨a, -, rfl⟩ := List.mem_map.1 hx
  exact hblock

lemma totalOf_rewarded_le (b : Bundle) :
    totalOf ((payouts b [] (rewardedAggregates b)).map (Payout.payment b))
      ≤ 2 * 54 * registryBase b / 448 :=
  calc totalOf ((payouts b [] (rewardedAggregates b)).map (Payout.payment b))
      ≤ numerator b (paidMerits b) / proposerDenominator := totalOf_payouts_le_div b [] _
    _ ≤ numerator b (allMerits b.window) / proposerDenominator :=
        Nat.div_le_div_right (numerator_le_allMerits (nodup_paidMerits b) fun _ => epoch_of_paid)
    _ = 2 * 54 * registryBase b / 448 := by
        rw [numerator_allMerits]
        rfl

end Altair

namespace Bundle

/-! ### What the slots have -/

/-- Slots that are named once have no more than all payments come to. -/
lemma sum_incomeAt_le {slots : List Slot} (h : slots.Nodup) (ps : List Payment) :
    (slots.map (Payment.incomeAt ps)).sum ≤ totalOf ps := by
  induction ps with
  | nil =>
    exact Nat.le_of_eq (List.sum_eq_zero fun n hn => by
      obtain ⟨s, -, rfl⟩ := List.mem_map.1 hn
      rfl)
  | cons p ps ih =>
    have hsplit (s : Slot) : Payment.incomeAt (p :: ps) s
        = (if s = p.block.slot then p.amount else 0) + Payment.incomeAt ps s := by
      rw [← List.singleton_append, Payment.incomeAt_append, Payment.incomeAt_singleton]
      simp only [eq_comm]
    have hone : (slots.map fun s => if s = p.block.slot then p.amount else 0).sum ≤ p.amount := by
      rw [sum_ite_of_nodup h]
      split
      · exact Nat.le_refl _
      · exact Nat.zero_le _
    rw [funext hsplit, List.sum_map_add, totalOf, List.map_cons, List.sum_cons]
    exact Nat.add_le_add hone ih

/-- On a fresh bundle a slot has what was paid for its blocks. -/
lemma Pays.manualAt_le {ps : List Payment} (h : Pays b ps c) (hb : ∀ s, b.manualAt s = 0)
    (s : Slot) : c.manualAt s ≤ Payment.incomeAt ps s := by
  have hzero := hb s
  rw [manualAt] at hzero
  rw [manualAt, h.manual]
  cases ht : b.blockTallies.get? s with
  | none => exact Nat.zero_le _
  | some t =>
    rw [ht] at hzero
    have hnone : t.manualReward = 0 := hzero
    show t.manualReward + _ ≤ _
    rw [hnone, Nat.zero_add]

lemma manualAt_fresh {net : Network} {phase : Phase} {preference : ReportPreference}
    (h : fresh net phase preference w = .ok b) (s : Slot) : b.manualAt s = 0 := by
  rw [manualAt, blockTallies_fresh h]
  split <;> rfl

end Bundle

/-- The amounts that a pass adds to the manual rewards of blocks come to `cap` at most. -/
structure VoteIncomeCapped (w : Window) (cap : Gwei) (b c : Bundle) : Prop where
  /-- in all, over the proposed blocks of the last snapshot -/
  paid : ∃ ps, Pays b ps c ∧ (∀ p ∈ ps, p.block ∈ w.next.proposedBlocks) ∧ totalOf ps ≤ cap
  /-- over any slots that are named once -/
  booked : ∀ slots : List Slot, slots.Nodup → (slots.map c.manualAt).sum ≤ cap
  /-- other slots have nothing -/
  elsewhere : ∀ s, (∀ block ∈ w.next.proposedBlocks, block.slot ≠ s) → c.manualAt s = 0

namespace Window

/-- **Votes are paid for once per flag and epoch.** Whatever the blocks of a window repeat, what its
last votes earn proposers is no more than all flags of all validators for two epochs are worth. -/
theorem vote_income_capped {net : Network} {phase : Phase} {preference : ReportPreference}
    (hb : fresh net phase preference w = .ok b)
    (hc : Altair.processIncludedVotes b = .ok () c) :
    VoteIncomeCapped w (2 * 54 * Altair.registryBase b / 448) b c := by
  obtain ⟨-, -, hpays⟩ := Altair.processIncludedVotes_ok hc
  have hblocks : ∀ p ∈ (Altair.payouts b [] (Altair.rewardedAggregates b)).map
      (Altair.Payout.payment b), p.block ∈ w.next.proposedBlocks := by
    intro p hp
    obtain ⟨q, hq, rfl⟩ := List.mem_map.1 hp
    obtain ⟨x, hx, heq⟩ := List.mem_map.1 (Altair.block_of_mem_payouts hq)
    rw [← window_fresh hb, Altair.Payout.payment, ← heq]
    exact Altair.block_of_mem_rewardedAggregates hx
  have hmanual := hpays.manualAt_le (manualAt_fresh hb)
  refine ⟨⟨_, hpays, hblocks, Altair.totalOf_rewarded_le b⟩, fun slots hslots => ?_, fun s hs => ?_⟩
  · calc (slots.map c.manualAt).sum
        ≤ (slots.map (Payment.incomeAt _)).sum := List.sum_le_sum fun s _ => hmanual s
      _ ≤ totalOf _ := sum_incomeAt_le hslots _
      _ ≤ _ := Altair.totalOf_rewarded_le b
  · refine Nat.le_zero.1 ((hmanual s).trans (Nat.le_of_eq ?_))
    rw [Payment.incomeAt, List.filter_eq_nil_iff.2]
    · rfl
    · intro p hp hslot
      exact hs p.block (hblocks p hp) (of_decide_eq_true hslot)

/-- Two validators whose votes for slots 11 and 12 are included again and again, by a committee that
lists the first of them twice. -/
def repeatedWindow : Window :=
  let vote (slot : Slot) : Attestation :=
    ⟨.ofBits [true, true, true], ⟨slot, 0, .zero, ⟨0, .zero⟩, ⟨slot / 4, .zero⟩⟩⟩
  let block (slot : Slot) (votes : List Slot) : Block :=
    { Block.missed slot 0 with proposed := true, attestations := votes.map vote }
  let validator : Validator := ⟨.zero, 32, false, 0, 0, farFuture, farFuture⟩
  let snapshot (epoch : Epoch) (blocks : List Block) : Snapshot :=
    { Snapshot.placeholder epoch (4 * epoch + 3) with
      validators := [validator, validator]
      blockRoots := List.replicate 16 .zero
      blocks
      duties := ⟨[⟨4 * epoch, 0, [0, 1, 0]⟩, ⟨4 * epoch + 3, 0, [0, 1, 0]⟩], []⟩ }
  ⟨snapshot 1 [], snapshot 2 [],
    snapshot 3 [block 12 [11, 11], block 13 [12, 11, 12], block 14 [12]]⟩

lemma repeatedWindow_income :
    (after (fresh .fourSlots .altair .strictlyPositive repeatedWindow)
      Altair.processIncludedVotes).map (fun c => [12, 13, 14].map c.manualAt) = some [61, 61, 0] := by
  cbv

lemma repeatedWindow_base :
    (fresh .fourSlots .altair .strictlyPositive repeatedWindow).toOption.map (fun b =>
      (List.range b.window.next.validators.length).map (Altair.baseRewardOf b)) = some [256, 256] := by
  cbv

/-- Every vote is paid for by the block that has it first. -/
theorem repeatedWindow_income_capped :
    ∃ b c, fresh .fourSlots .altair .strictlyPositive repeatedWindow = .ok b ∧
      Altair.processIncludedVotes b = .ok () c ∧ [12, 13, 14].map c.manualAt = [61, 61, 0] ∧
        2 * 54 * Altair.registryBase b / 448 = 123 ∧
          VoteIncomeCapped repeatedWindow (2 * 54 * Altair.registryBase b / 448) b c := by
  obtain ⟨b, _, c, hb, hc, hincome⟩ := exists_of_after repeatedWindow_income
  have hbase : Altair.registryBase b = 512 := by
    have hmap := repeatedWindow_base
    rw [hb] at hmap
    exact congrArg List.sum (Option.some.inj hmap)
  exact ⟨b, c, hb, hc, hincome, by rw [hbase], vote_income_capped hb hc⟩

end Window

end EpochRewards
