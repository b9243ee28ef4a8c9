import EpochRewards.Proofs.Words
import EpochRewards.Reward.Accounting

/-!
Figures of the size that networks have, and the rewards that follow from them.

All bounds are derived from two: a balance of 2048 increments at most, and an active balance of
one increment at least, whose root keeps the reward per increment small.
-/

namespace EpochRewards

namespace Network

/-- A preset with whatever fork epochs. -/
def IsPreset (net : Network) : Prop :=
  ∃ p ∈ presets, net = { p with
    altairEpoch := net.altairEpoch
    bellatrixEpoch := net.bellatrixEpoch
    capellaEpoch := net.capellaEpoch
    denebEpoch := net.denebEpoch }

/-- What the presets have in common, with room for networks of other sizes. -/
structure Usual (net : Network) : Prop where
  increment : net.balanceIncrement.val = 10 ^ 9
  factor : net.baseRewardFactor ≤ 64
  epoch : net.slotsPerEpoch.val ≤ 2 ^ 16
  ring : net.rootRing.val ≤ 2 ^ 32
  delay : net.minInclusionDelay.val ≤ 2 ^ 32
  committee : net.syncCommitteeSize.val ≤ 2 ^ 20
  whistleblower : 512 ≤ net.whistleblowerQuotient.val

lemma IsPreset.usual {net : Network} (h : net.IsPreset) : net.Usual := by
  obtain ⟨p, hp, hnet⟩ := h
  simp only [presets, List.mem_cons, List.not_mem_nil, or_false] at hp
  have husual : p.Usual := by
    rcases hp with rfl | rfl | rfl | rfl | rfl
    all_goals exact ⟨rfl, by decide, by decide, by decide, by decide, by decide, by decide⟩
  rw [hnet]
  exact ⟨husual.increment, husual.factor, husual.epoch, husual.ring, husual.delay,
    husual.committee, husual.whistleblower⟩

end Network

/-- The figures of a window are of the size that networks have. -/
structure Window.AtScale (net : Network) (w : Window) : Prop where
  effective : ∀ s ∈ w.snapshots, ∀ v ∈ s.validators, v.effectiveBalance ≤ 2048 * 10 ^ 9
  stake : ∀ s ∈ w.snapshots, (s.validators.map (·.effectiveBalance)).sum ≤ 2 ^ 56
  slots : ∀ s ∈ w.snapshots, s.slot < 2 ^ 62
  blockSlots : ∀ block ∈ w.blocks, block.slot < 2 ^ 62
  committeeSlots : ∀ s ∈ w.snapshots, ∀ c ∈ s.duties.committees, c.slot < 2 ^ 62
  voteSlots : ∀ block ∈ w.blocks, ∀ a ∈ block.attestations, a.data.slot < 2 ^ 62
  attestations : (w.blocks.flatMap (·.attestations)).length < 2 ^ 40
  votes : ((w.blocks.flatMap (·.attestations)).map (·.bits.countOnes)).sum < 2 ^ 40
  blocks : w.next.blocks.length ≤ 2 ^ 20
  participants : ∀ block ∈ w.next.blocks, ∀ aggregate ∈ block.syncAggregate,
    aggregate.bits.countOnes ≤ net.syncCommitteeSize.val
  seats : ∀ committee ∈ w.next.syncCommittee, committee.keys.length ≤ 2 ^ 20
  slashed : (w.next.blocks.map (·.slashedIndices.length)).sum ≤ 2 ^ 30

/-! ### Base rewards -/

namespace Network

variable {net : Network} {active effective perIncrement : Nat}

lemma root_le (h : 10 ^ 9 ≤ active) : 31622 ≤ max (Word.sqrt active) 1 := by
  have hsquare : 31622 * 31622 ≤ active := Nat.le_trans (by norm_num) h
  exact Nat.le_trans (Word.le_sqrt hsquare) (Nat.le_max_left _ _)

lemma Usual.increments_le (h : net.Usual) {balance : Gwei} (hbalance : balance ≤ 2 ^ 56) :
    balance / net.balanceIncrement.val ≤ 72057594 := by
  rw [h.increment]
  exact Nat.le_trans (Nat.div_le_div_right hbalance) (by norm_num)

lemma Usual.increments_pos (h : net.Usual) {balance : Gwei} (hbalance : 10 ^ 9 ≤ balance) :
    1 ≤ balance / net.balanceIncrement.val := by
  rw [h.increment]
  exact Nat.le_trans (by norm_num) (Nat.div_le_div_right hbalance)

lemma Usual.baseRewardPerIncrement (h : net.Usual) (hactive : 10 ^ 9 ≤ active) :
    ∃ p, net.baseRewardPerIncrement active = .ok p ∧ p ≤ 2023907 := by
  have hroot := root_le hactive
  have hproduct : net.balanceIncrement.val * net.baseRewardFactor ≤ 64 * 10 ^ 9 := by
    rw [h.increment, Nat.mul_comm]
    exact Nat.mul_le_mul_right _ h.factor
  have hfits : net.balanceIncrement.val * net.baseRewardFactor < Word.bound :=
    Nat.lt_of_le_of_lt hproduct (by norm_num [Word.bound])
  refine ⟨net.balanceIncrement.val * net.baseRewardFactor / max (Word.sqrt active) 1, ?_, ?_⟩
  · rw [Network.baseRewardPerIncrement, Word.mul_eq hfits]
    exact Word.div_eq (by omega)
  · calc net.balanceIncrement.val * net.baseRewardFactor / max (Word.sqrt active) 1
        ≤ 64 * 10 ^ 9 / 31622 := Nat.div_le_div hproduct hroot (by norm_num)
      _ ≤ 2023907 := by norm_num

lemma Usual.baseReward (h : net.Usual) (heffective : effective ≤ 2048 * 10 ^ 9)
    (hper : perIncrement ≤ 2023907) :
    ∃ r, net.baseReward effective perIncrement = .ok r ∧ r ≤ 2048 * 2023907 ∧ r ≤ effective := by
  have hincrements : effective / 10 ^ 9 ≤ 2048 := by omega
  have hbase : effective / 10 ^ 9 * perIncrement ≤ 2048 * 2023907 := Nat.mul_le_mul hincrements hper
  have hfits : effective / 10 ^ 9 * perIncrement < Word.bound :=
    Nat.lt_of_le_of_lt hbase (by norm_num [Word.bound])
  refine ⟨effective / 10 ^ 9 * perIncrement, ?_, hbase, ?_⟩
  · rw [Network.baseReward, h.increment]
    exact Word.mul_eq hfits
  · calc effective / 10 ^ 9 * perIncrement
        ≤ effective / 10 ^ 9 * 10 ^ 9 := Nat.mul_le_mul_left _ (by omega)
      _ ≤ effective := Nat.div_mul_le_self _ _

lemma Usual.phase0BaseReward (h : net.Usual) (heffective : effective ≤ 2048 * 10 ^ 9)
    (hactive : 10 ^ 9 ≤ active) :
    ∃ r, net.phase0BaseReward effective active = .ok r ∧ r ≤ 2 ^ 30 ∧ r ≤ effective := by
  have hroot := root_le hactive
  have hproduct : effective * net.baseRewardFactor ≤ effective * 64 :=
    Nat.mul_le_mul_left _ h.factor
  have hfits : effective * net.baseRewardFactor < Word.bound := by
    have hsmall : effective * 64 < Word.bound := by
      unfold Word.bound
      omega
    exact Nat.lt_of_le_of_lt hproduct hsmall
  have hroot64 : effective * net.baseRewardFactor / max (Word.sqrt active) 1
      ≤ effective * 64 / 31622 := Nat.div_le_div hproduct hroot (by norm_num)
  refine ⟨effective * net.baseRewardFactor / max (Word.sqrt active) 1 / 4, ?_, ?_, ?_⟩
  · rw [Network.phase0BaseReward, Word.mul_eq hfits]
    show (do
      let root ← Word.div (effective * net.baseRewardFactor) (max (Word.sqrt active) 1)
      return root / 4) = _
    rw [Word.div_eq (by omega)]
    rfl
  · have harith (r e : Nat) (hr : r ≤ e * 64 / 31622) (he : e ≤ 2048 * 10 ^ 9) :
        r / 4 ≤ 2 ^ 30 := by omega
    exact harith _ _ hroot64 heffective
  · have harith (r e : Nat) (hr : r ≤ e * 64 / 31622) : r / 4 ≤ e := by omega
    exact harith _ _ hroot64

end Network

/-! ### Active balances -/

namespace Window.AtScale

variable {net : Network} {w : Window} {s : Snapshot}

lemma effectiveBalance_le (h : w.AtScale net) (hs : s ∈ w.snapshots) {v : ValidatorIndex}
    {x : Validator} (hx : s.validator? v = some x) : x.effectiveBalance ≤ 2048 * 10 ^ 9 :=
  h.effective s hs x (List.mem_of_getElem? hx)

lemma activeBalance (h : w.AtScale net) (hnet : net.Usual) (hs : s ∈ w.snapshots) :
    ∃ active, s.activeBalance net = .ok active ∧ 10 ^ 9 ≤ active ∧ active ≤ 2 ^ 56 := by
  have hsum : ((s.validators.filter (·.isActiveAt s.epoch)).map (·.effectiveBalance)).sum
      ≤ 2 ^ 56 :=
    Nat.le_trans ((List.filter_sublist.map _).sum_le_sum fun _ _ => Nat.zero_le _) (h.stake s hs)
  have hfits : ((s.validators.filter (·.isActiveAt s.epoch)).map (·.effectiveBalance)).sum
      < Word.bound := Nat.lt_of_le_of_lt hsum (by norm_num [Word.bound])
  refine ⟨max ((s.validators.filter (·.isActiveAt s.epoch)).map (·.effectiveBalance)).sum
    net.balanceIncrement.val, ?_, ?_, ?_⟩
  · rw [Snapshot.activeBalance, Word.sum_eq hfits]
    rfl
  · rw [hnet.increment]
    exact Nat.le_max_right _ _
  · rw [hnet.increment]
    exact Nat.max_le.2 ⟨hsum, by norm_num⟩

end Window.AtScale

end EpochRewards
