import EpochRewards.Proofs.Pass
import EpochRewards.Proofs.Words
import EpochRewards.Reward.Accounting

/-!
The components of a validator's maximum.

A maximum has a share of the base reward for every flag that was within reach, and before Altair one
more for the earliest inclusion. Under either set of rules the flags are added up in the same way.
-/

namespace EpochRewards

namespace Bundle

variable {b : Bundle} {v : ValidatorIndex} {share share' : Flag → Gwei}
  {step : Gwei → Flag → Calc Gwei}

/-- Whether the flag is known to have been within reach. -/
def attainable (b : Bundle) (v : ValidatorIndex) (flag : Flag) : Bool :=
  (b.isFlagPossible v flag).toOption.getD false

/-- The shares of the flags within reach. -/
def attainableSum (b : Bundle) (v : ValidatorIndex) (share : Flag → Gwei) : Gwei :=
  ((Flag.all.filter (b.attainable v)).map share).sum

lemma attainable_of_ok {flag : Flag} {possible : Bool} (h : b.isFlagPossible v flag = .ok possible) :
    b.attainable v flag = possible := by
  rw [attainable, h]
  rfl

/-- A step adds the share of a flag that was within reach. -/
def AddsShare (b : Bundle) (v : ValidatorIndex) (share : Flag → Gwei)
    (step : Gwei → Flag → Calc Gwei) : Prop :=
  ∀ ⦃total flag r⦄, step total flag = .ok r →
    r = total + if b.attainable v flag then share flag else 0

lemma AddsShare.foldlM (h : AddsShare b v share step) {flags : List Flag} {total r : Gwei}
    (hr : flags.foldlM step total = .ok r) :
    r = total + ((flags.filter (b.attainable v)).map share).sum := by
  induction flags generalizing total with
  | nil =>
    rw [List.foldlM_nil, Calc.pure_ok] at hr
    exact hr.symm
  | cons flag flags ih =>
    rw [List.foldlM_cons, Calc.bind_ok] at hr
    obtain ⟨next, hnext, hr⟩ := hr
    rw [ih hr, h hnext, Nat.add_assoc]
    cases hflag : b.attainable v flag with
    | true => simp [hflag]
    | false => simp [hflag]

lemma AddsShare.sum (h : AddsShare b v share step) {r : Gwei}
    (hr : Flag.all.foldlM step 0 = .ok r) : r = b.attainableSum v share :=
  (h.foldlM hr).trans (Nat.zero_add _)

/-- Shares of single flags bound the sum from above. -/
lemma attainableSum_le (hshare : ∀ flag, share flag ≤ share' flag) :
    b.attainableSum v share ≤ (Flag.all.map share').sum :=
  calc b.attainableSum v share
      ≤ (Flag.all.map share).sum :=
        (List.filter_sublist.map share).sum_le_sum fun _ _ => Nat.zero_le _
    _ ≤ (Flag.all.map share').sum := List.sum_le_sum fun flag _ => hshare flag

/-- Flags that were within reach bound the sum from below. -/
lemma sum_le_attainableSum {flags : Flags}
    (hflags : ∀ flag, flags.has flag = true → b.attainable v flag = true) :
    ((Flag.all.filter flags.has).map share).sum ≤ b.attainableSum v share := by
  have hnodup : (Flag.all.filter flags.has).Nodup := by
    have hall : Flag.all.Nodup := by decide
    exact hall.filter _
  refine sum_map_le_of_nodup hnodup fun flag hflag _ => ?_
  obtain ⟨hall, hhas⟩ := List.mem_filter.1 hflag
  exact List.mem_filter.2 ⟨hall, hflags flag hhas⟩

end Bundle

open EpochRewards.Bundle

variable {b : Bundle} {v : ValidatorIndex} {base total r : Gwei} {flag : Flag}

/-! ### Before Altair -/

namespace Phase0

/-- The base reward in proportion to the balance that earned the flag. -/
def flagShare (b : Bundle) (base : Gwei) (flag : Flag) : Gwei :=
  base * (b.attestingBalance.get flag / b.network.balanceIncrement.val)
    / (b.currentActiveBalance / b.network.balanceIncrement.val)

/-- What is left of the base reward without the proposer's part, for an inclusion after `delay`
slots. -/
def delayShare (b : Bundle) (base : Gwei) (delay : Nat) : Gwei :=
  (base - base / b.network.proposerQuotient.val) / delay

lemma flagReward_addsShare (b : Bundle) (v : ValidatorIndex) (base : Gwei) :
    b.AddsShare v (flagShare b base) (flagReward b v base) := by
  intro total flag r h
  simp only [flagReward, Calc.bind_ok] at h
  obtain ⟨possible, hpossible, h⟩ := h
  rw [attainable_of_ok hpossible]
  split at h
  · next hp =>
    simp only [Calc.bind_ok, Calc.fault_ok, Word.mul_ok, Word.div_ok, Word.add_ok] at h
    obtain ⟨_, ⟨-, rfl⟩, _, ⟨-, rfl⟩, -, rfl⟩ := h
    rw [if_pos hp]
    rfl
  · next hp =>
    rw [if_neg hp]
    exact (Calc.pure_ok.1 h).symm

/-- The share for the earliest inclusion, if there was an opportunity for any. -/
lemma delayReward_ok (h : delayReward b v base total = .ok r) :
    (∃ slot delay, b.window.prev.duties.voteSlot? v = some slot ∧
        b.firstOpportunity slot b.network.slotsPerEpoch.val = .ok (some delay) ∧
          r = total + delayShare b base delay) ∨
      ((∀ slot, b.window.prev.duties.voteSlot? v = some slot →
        b.firstOpportunity slot b.network.slotsPerEpoch.val = .ok none) ∧ r = total) := by
  unfold delayReward at h
  split at h
  · next hnone =>
    exact .inr ⟨fun slot hslot => (nomatch hnone.symm.trans hslot), (Calc.pure_ok.1 h).symm⟩
  · next slot hslot =>
    obtain ⟨found, hfound, h⟩ := Calc.bind_ok.1 h
    cases found with
    | none =>
      refine .inr ⟨fun s hs => ?_, (Calc.pure_ok.1 h).symm⟩
      rw [← Option.some.inj (hslot.symm.trans hs)]
      exact hfound
    | some delay =>
      simp only [Calc.bind_ok, Calc.fault_ok, Word.sub_ok, Word.div_ok, Word.add_ok] at h
      obtain ⟨_, ⟨-, rfl⟩, _, ⟨-, rfl⟩, -, rfl⟩ := h
      exact .inl ⟨slot, delay, hslot, hfound, rfl⟩

lemma maxReward_ok (h : maxReward b v = .ok r) :
    ∃ base, baseReward b v = .ok base ∧
      delayReward b v base (b.attainableSum v (flagShare b base)) = .ok r := by
  simp only [maxReward, Calc.bind_ok] at h
  obtain ⟨base, hbase, flags, hflags, h⟩ := h
  rw [(flagReward_addsShare b v base).sum hflags] at h
  exact ⟨base, hbase, h⟩

/-- If no more balance earned a flag than is active, its share is part of the base reward. -/
lemma flagShare_le (h : b.attestingBalance.get flag ≤ b.currentActiveBalance) :
    flagShare b base flag ≤ base := by
  have hincrements : b.attestingBalance.get flag / b.network.balanceIncrement.val
      ≤ b.currentActiveBalance / b.network.balanceIncrement.val := Nat.div_le_div_right h
  refine Nat.div_le_of_le_mul ?_
  rw [Nat.mul_comm _ base]
  exact Nat.mul_le_mul_left base hincrements

lemma delayShare_le (b : Bundle) (base delay : Nat) :
    delayShare b base delay ≤ base - base / b.network.proposerQuotient.val :=
  Nat.div_le_self _ _

/-- An earlier inclusion is worth no less. -/
lemma delayShare_anti (b : Bundle) (base : Gwei) {k d : Nat} (hk : 0 < k) (hkd : k ≤ d) :
    delayShare b base d ≤ delayShare b base k := Nat.div_le_div_left hkd hk

end Phase0

/-! ### Since Altair -/

namespace Altair

/-- The flag's part of the base reward in proportion to the balance that earned it. -/
def flagShare (b : Bundle) (base : Gwei) (flag : Flag) : Gwei :=
  flag.weight * base * (b.attestingBalance.get flag / b.network.balanceIncrement.val)
    / (b.currentActiveBalance / b.network.balanceIncrement.val * weightDenominator)

lemma flagReward_addsShare (b : Bundle) (v : ValidatorIndex) (base : Gwei) :
    b.AddsShare v (flagShare b base) (flagReward b v base) := by
  intro total flag r h
  simp only [flagReward, Calc.bind_ok] at h
  obtain ⟨possible, hpossible, h⟩ := h
  rw [attainable_of_ok hpossible]
  split at h
  · next hp =>
    simp only [Calc.bind_ok, Calc.fault_ok, Word.mul_ok, Word.div_ok, Word.add_ok] at h
    obtain ⟨_, ⟨-, rfl⟩, _, ⟨-, rfl⟩, _, ⟨-, rfl⟩, _, ⟨-, rfl⟩, -, rfl⟩ := h
    rw [if_pos hp]
    rfl
  · next hp =>
    rw [if_neg hp]
    exact (Calc.pure_ok.1 h).symm

/-- If no more balance earned a flag than is active, its share is part of what its weight gives. -/
lemma flagShare_le (h : b.attestingBalance.get flag ≤ b.currentActiveBalance) :
    flagShare b base flag ≤ flag.weight * base / weightDenominator := by
  have hincrements : b.attestingBalance.get flag / b.network.balanceIncrement.val
      ≤ b.currentActiveBalance / b.network.balanceIncrement.val := Nat.div_le_div_right h
  rw [flagShare, ← Nat.div_div_eq_div_mul]
  refine Nat.div_le_div_right (Nat.div_le_of_le_mul ?_)
  rw [Nat.mul_comm _ (flag.weight * base)]
  exact Nat.mul_le_mul_left _ hincrements

end Altair

end EpochRewards
