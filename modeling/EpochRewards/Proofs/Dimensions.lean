import EpochRewards.Proofs.PerfectWindows
import EpochRewards.Proofs.Totals

/-!
The dimensions of a perfect window.

A window of a roomy chain is of the size that networks have: a block for each slot at most, a vote
for each validator at most in each of them, and nothing that is reported or withdrawn. So neither
its bundle nor a record overflows.
-/

namespace EpochRewards

open Chain

lemma sum_le_length_mul {α : Type} {f : α → Nat} {m : Nat} {xs : List α} (h : ∀ x ∈ xs, f x ≤ m) :
    (xs.map f).sum ≤ xs.length * m := by
  have hsum := List.sum_le_card_nsmul (xs.map f) m fun y hy => by
    obtain ⟨x, hx, rfl⟩ := List.mem_map.1 hy
    exact h x hx
  rwa [List.length_map, smul_eq_mul] at hsum

/-! ### Snapshots -/

namespace Snapshot.PerfectBut

variable {net : Network} {n e last : Nat} {removed : Removals} {s : Snapshot} {block : Block}

/-- A snapshot lists a block for each slot of its epoch at most. -/
lemma length_blocks_le (h : s.PerfectBut net n removed e) :
    s.blocks.length ≤ net.slotsPerEpoch.val := by
  have hlength := congrArg List.length (Network.slotsOf_ok h.listed).2
  rw [List.length_map, List.length_range'] at hlength
  have hnext : (e + 1) * net.slotsPerEpoch.val
      = e * net.slotsPerEpoch.val + net.slotsPerEpoch.val := Nat.succ_mul _ _
  have harith (first spe m : Nat) : min (first + spe) m - min first m ≤ spe := by omega
  rw [hlength, Network.startSlot, Network.startSlot, Word.satMul, Word.satMul, hnext]
  exact harith _ _ _

lemma nodup_slots (h : s.PerfectBut net n removed e) : (s.blocks.map (·.slot)).Nodup := by
  rw [(Network.slotsOf_ok h.listed).2]
  exact List.nodup_range'

lemma slot_block_le (h : s.PerfectBut net n removed e) (hroomy : Roomy net n last) (he : e ≤ last)
    (hblock : block ∈ s.blocks) : block.slot ≤ 2 ^ 61 :=
  hroomy.slot_le (Nat.le_trans
    (Nat.le_of_eq (h.mem_slots.1 (List.mem_map_of_mem hblock)).1) he)

/-- Epochs have no slots in common. -/
lemma disjoint_slots {t : Snapshot} {f : Nat} (h : s.PerfectBut net n removed e)
    (ht : t.PerfectBut net n removed f) (hne : e ≠ f) :
    (s.blocks.map (·.slot)).Disjoint (t.blocks.map (·.slot)) := fun _ hs ht' =>
  hne ((h.mem_slots.1 hs).1.symm.trans (ht.mem_slots.1 ht').1)

end Snapshot.PerfectBut

/-! ### Blocks -/

namespace Block.PerfectBut

variable {net : Network} {n : Nat} {removed : Removals} {b : Block}

lemma length_attestations_le (h : b.PerfectBut net n removed) : b.attestations.length ≤ 1 := by
  rw [h.votes]
  unfold votesIn
  split
  · exact Nat.zero_le 1
  · split
    · exact Nat.zero_le 1
    · exact Nat.le_refl 1

/-- A vote comes from the slot before. -/
lemma slot_vote_le (h : b.PerfectBut net n removed) {a : Attestation} (ha : a ∈ b.attestations) :
    a.data.slot ≤ b.slot := by
  rw [h.votes] at ha
  obtain ⟨slot, hslot, -, rfl⟩ := mem_votesIn ha
  rw [hslot]
  exact Nat.le_succ slot

lemma countOnes_vote_le (h : b.PerfectBut net n removed) {a : Attestation}
    (ha : a ∈ b.attestations) : a.bits.countOnes ≤ n := by
  rw [h.votes] at ha
  obtain ⟨slot, -, -, rfl⟩ := mem_votesIn ha
  have hmembers : (committeeMembers net n slot).length ≤ n :=
    Nat.le_trans (List.length_filter_le _ _) (Nat.le_of_eq List.length_range)
  refine Nat.le_trans List.count_le_length (Nat.le_trans ?_ hmembers)
  exact Nat.le_of_eq (List.length_map _)

end Block.PerfectBut

/-! ### Windows -/

namespace Window.PerfectBut

variable {net : Network} {n e last : Nat} {removed : Removals} {w : Window} {block : Block}
  {s : Snapshot} {v : ValidatorIndex}

lemma withdrawnIn_eq_zero (h : w.PerfectBut net n removed e) (v : ValidatorIndex) :
    withdrawnIn w.next.blocks v = 0 := by
  have hnone : w.next.blocks.flatMap (·.withdrawals) = [] :=
    List.flatMap_eq_nil_iff.2 fun block hblock => (h.next.blocks block hblock).unwithdrawn
  rw [withdrawnIn, hnone]
  rfl

lemma mem_blocks_iff : block ∈ w.blocks ↔ ∃ s ∈ w.snapshots, block ∈ s.blocks := List.mem_flatMap

lemma perfect_block (h : w.PerfectBut net n removed e) (hblock : block ∈ w.blocks) :
    block.PerfectBut net n removed := by
  obtain ⟨s, hs, hblock⟩ := mem_blocks_iff.1 hblock
  obtain ⟨f, hperfect⟩ := h.exists_perfect hs
  exact hperfect.blocks block hblock

lemma length_blocks_le (h : w.PerfectBut net n removed e) (hroomy : Roomy net n last) :
    w.blocks.length ≤ 3 * 2 ^ 16 := by
  have heach (s : Snapshot) (hs : s ∈ w.snapshots) : s.blocks.length ≤ 2 ^ 16 := by
    obtain ⟨f, hperfect⟩ := h.exists_perfect hs
    exact Nat.le_trans hperfect.length_blocks_le hroomy.usual.epoch
  rw [blocks, List.length_flatMap]
  exact sum_le_length_mul heach

lemma length_votes_le (h : w.PerfectBut net n removed e) (hroomy : Roomy net n last) :
    (w.blocks.flatMap (·.attestations)).length ≤ 3 * 2 ^ 16 := by
  rw [List.length_flatMap]
  calc (w.blocks.map fun b => b.attestations.length).sum ≤ w.blocks.length * 1 :=
        sum_le_length_mul fun b hb => (h.perfect_block hb).length_attestations_le
    _ ≤ 3 * 2 ^ 16 := by
        rw [Nat.mul_one]
        exact h.length_blocks_le hroomy

/-- Blocks of the three epochs are in different slots. -/
lemma nodup_slots (h : w.PerfectBut net n removed e) : (w.blocks.map (·.slot)).Nodup := by
  have hsplit : w.blocks.map (·.slot) = w.prev.blocks.map (·.slot)
      ++ (w.current.blocks.map (·.slot) ++ w.next.blocks.map (·.slot)) := by
    simp [blocks, snapshots]
  rw [hsplit]
  refine h.prev.nodup_slots.append (h.current.nodup_slots.append h.next.nodup_slots ?_) ?_
  · exact h.current.disjoint_slots h.next (Nat.ne_of_lt (Nat.lt_succ_self _))
  · rw [List.disjoint_append_right]
    exact ⟨h.prev.disjoint_slots h.current (Nat.ne_of_lt (Nat.lt_succ_self _)),
      h.prev.disjoint_slots h.next (Nat.ne_of_lt (Nat.lt_add_of_pos_right Nat.two_pos))⟩

section Roomy

variable (h : w.PerfectBut net n removed e) (hlast : e + 2 ≤ last)
include h hlast

lemma exists_perfect_le (hs : s ∈ w.snapshots) : ∃ f ≤ last, s.PerfectBut net n removed f := by
  simp only [snapshots, List.mem_cons, List.not_mem_nil, or_false] at hs
  rcases hs with rfl | rfl | rfl
  · exact ⟨e, by omega, h.prev⟩
  · exact ⟨e + 1, by omega, h.current⟩
  · exact ⟨e + 2, hlast, h.next⟩

variable (hroomy : Roomy net n last)
include hroomy

lemma slot_block_le (hblock : block ∈ w.blocks) : block.slot ≤ 2 ^ 61 := by
  obtain ⟨s, hs, hblock⟩ := mem_blocks_iff.1 hblock
  obtain ⟨f, hf, hperfect⟩ := h.exists_perfect_le hlast hs
  exact hperfect.slot_block_le hroomy hf hblock

/-- Windows of roomy chains are of the size that networks have. -/
lemma atScale : w.AtScale net where
  effective s hs x hx := by
    obtain ⟨f, -, hperfect⟩ := h.exists_perfect_le hlast hs
    rw [hperfect.validators] at hx
    obtain ⟨v, -, rfl⟩ := List.mem_map.1 hx
    exact (by decide : 32000000000 ≤ 2048 * 10 ^ 9)
  stake s hs := by
    obtain ⟨f, -, hperfect⟩ := h.exists_perfect_le hlast hs
    have heach : ∀ x ∈ s.validators, x.effectiveBalance ≤ 32000000000 := by
      rw [hperfect.validators]
      intro x hx
      obtain ⟨v, -, rfl⟩ := List.mem_map.1 hx
      exact Nat.le_refl _
    calc (s.validators.map (·.effectiveBalance)).sum ≤ s.validators.length * 32000000000 :=
          sum_le_length_mul heach
      _ ≤ 2 ^ 21 * 32000000000 := by
          rw [hperfect.length_validators]
          exact Nat.mul_le_mul_right _ hroomy.validators
      _ ≤ 2 ^ 56 := by norm_num
  slots s hs := by
    obtain ⟨f, hf, hperfect⟩ := h.exists_perfect_le hlast hs
    rw [hperfect.taken.slot]
    exact Nat.lt_of_le_of_lt (hroomy.terminalSlot_le hf) (by norm_num)
  blockSlots block hblock :=
    Nat.lt_of_le_of_lt (h.slot_block_le hlast hroomy hblock) (by norm_num)
  committeeSlots s hs c hc := by
    obtain ⟨f, hf, hperfect⟩ := h.exists_perfect_le hlast hs
    obtain ⟨block, hblock, hslot⟩ := List.mem_map.1 ((hperfect.committees c).1 hc).1
    rw [← hslot]
    exact Nat.lt_of_le_of_lt (hperfect.slot_block_le hroomy hf hblock) (by norm_num)
  voteSlots block hblock a ha :=
    Nat.lt_of_le_of_lt (Nat.le_trans ((h.perfect_block hblock).slot_vote_le ha)
      (h.slot_block_le hlast hroomy hblock)) (by norm_num)
  attestations := Nat.lt_of_le_of_lt (h.length_votes_le hroomy) (by norm_num)
  votes :=
    calc ((w.blocks.flatMap (·.attestations)).map (·.bits.countOnes)).sum
        ≤ (w.blocks.flatMap (·.attestations)).length * 2 ^ 21 := by
          refine sum_le_length_mul fun a ha => ?_
          obtain ⟨b, hb, ha⟩ := List.mem_flatMap.1 ha
          exact Nat.le_trans ((h.perfect_block hb).countOnes_vote_le ha) hroomy.validators
      _ ≤ 3 * 2 ^ 16 * 2 ^ 21 := Nat.mul_le_mul_right _ (h.length_votes_le hroomy)
      _ < 2 ^ 40 := by norm_num
  blocks := Nat.le_trans (Nat.le_trans h.next.length_blocks_le hroomy.usual.epoch) (by norm_num)
  participants block hblock aggregate haggregate :=
    Nat.le_trans List.count_le_length
      (Nat.le_of_eq ((h.next.blocks block hblock).seated aggregate haggregate))
  seats committee hcommittee :=
    Nat.le_trans (Nat.le_of_eq (h.next.seats committee hcommittee)) hroomy.usual.committee
  slashed := by
    calc (w.next.blocks.map (·.slashedIndices.length)).sum ≤ w.next.blocks.length * 0 :=
          sum_le_length_mul fun b hb => by rw [(h.next.blocks b hb).unslashed]; exact Nat.le_refl 0
      _ ≤ 2 ^ 30 := by norm_num

end Roomy

/-- Nothing is reported and nothing is withdrawn. -/
lemma statedAtScale (h : w.PerfectBut net n removed e) : w.StatedAtScale where
  slots := h.nodup_slots
  reported v := by
    have hnone : reportsOn v w.blocks = [] :=
      List.filterMap_eq_nil_iff.2 fun block hblock => by
        rw [(h.perfect_block (List.mem_of_mem_filter hblock)).unreported]
        rfl
    rw [hnone]
    exact Nat.zero_le _
  withdrawn v := by
    rw [h.withdrawnIn_eq_zero v]
    exact Nat.two_pow_pos 64

end Window.PerfectBut

end EpochRewards
