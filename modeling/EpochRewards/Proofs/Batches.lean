import EpochRewards.Dispatch
import Mathlib.Tactic.Ring

/-!
Batches: the pieces into which a list is cut make up the list again.

Pieces are cut off until one is missing or empty. The sizes of batches are positive and add up to
the length of the list, so that none is, and the batches are as many and as even as they can be.
-/

namespace EpochRewards

variable {α : Type} {count n : Nat} {xs : List α} {sizes : List Nat}

/-! ### Pieces -/

lemma cut_cons {size : Nat} (hsize : 0 < size) (h : size ≤ xs.length) :
    cut (size :: sizes) xs = xs.take size :: cut sizes (xs.drop size) := if_pos ⟨h, hsize⟩

/-- As long as the list lasts, no piece is missing. -/
lemma map_length_cut (hs : ∀ size ∈ sizes, 0 < size) (h : sizes.sum ≤ xs.length) :
    (cut sizes xs).map List.length = sizes := by
  induction sizes generalizing xs with
  | nil => rfl
  | cons size sizes ih =>
    rw [List.forall_mem_cons] at hs
    rw [List.sum_cons] at h
    have hsize : size ≤ xs.length := by omega
    have hrest : sizes.sum ≤ (xs.drop size).length := by
      rw [List.length_drop]
      omega
    rw [cut_cons hs.1 hsize, List.map_cons, ih hs.2 hrest, List.length_take_of_le hsize]

lemma flatten_cut (hs : ∀ size ∈ sizes, 0 < size) (h : sizes.sum = xs.length) :
    (cut sizes xs).flatten = xs := by
  induction sizes generalizing xs with
  | nil => exact (List.eq_nil_of_length_eq_zero h.symm).symm
  | cons size sizes ih =>
    rw [List.forall_mem_cons] at hs
    rw [List.sum_cons] at h
    have hrest : sizes.sum = (xs.drop size).length := by
      rw [List.length_drop]
      omega
    rw [cut_cons hs.1 (by omega), List.flatten_cons, ih hs.2 hrest, List.take_append_drop]

lemma ne_nil_of_mem_cut : ∀ piece ∈ cut sizes xs, piece ≠ [] := by
  induction sizes generalizing xs with
  | nil => exact fun _ h => absurd h List.not_mem_nil
  | cons size sizes ih =>
    intro piece hpiece
    rw [cut] at hpiece
    split at hpiece
    · next h =>
      rcases List.mem_cons.1 hpiece with rfl | hpiece
      · refine List.ne_nil_of_length_pos ?_
        rw [List.length_take_of_le h.1]
        exact h.2
      · exact ih piece hpiece
    · exact absurd hpiece List.not_mem_nil

/-! ### Sizes -/

lemma batchSizes_eq (h : 0 < count) : batchSizes count n
    = List.replicate (n % count) (n / count + 1)
      ++ List.replicate (count - n % count) (n / count) := by
  have hr : n % count < count := Nat.mod_lt n h
  refine List.ext_getElem (by simp [batchSizes]; omega) fun i hi _ => ?_
  simp only [batchSizes, List.getElem_map, List.getElem_range, List.getElem_append,
    List.length_replicate, List.getElem_replicate]
  split <;> rfl

lemma sum_batchSizes (h : 0 < count) : (batchSizes count n).sum = n := by
  obtain ⟨short, hcount⟩ := Nat.exists_eq_add_of_le (Nat.mod_lt n h).le
  have hshort : count - n % count = short := by omega
  calc (batchSizes count n).sum
    _ = n % count * (n / count + 1) + short * (n / count) := by
        rw [batchSizes_eq h, hshort, List.sum_append, List.sum_replicate_nat,
          List.sum_replicate_nat]
    _ = (n % count + short) * (n / count) + n % count := by ring
    _ = n := by rw [← hcount, Nat.div_add_mod]

lemma pos_of_mem_batchSizes (h : 0 < count) (hn : count ≤ n) :
    ∀ size ∈ batchSizes count n, 0 < size := by
  intro size hs
  obtain ⟨i, -, rfl⟩ := List.mem_map.1 hs
  have := Nat.div_pos hn h
  omega

/-! ### Batches -/

lemma splitEvenly_nil : splitEvenly count ([] : List α) = [] := by
  have hcount : min (max count 1) (max ([] : List α).length 1) = 1 := by
    rw [List.length_nil]
    omega
  rw [splitEvenly, hcount, List.length_nil, batchSizes]
  rfl

/-- Batches lose nothing, repeat nothing and keep the order. -/
theorem flatten_splitEvenly (count : Nat) (xs : List α) : (splitEvenly count xs).flatten = xs := by
  by_cases h : xs = []
  -- one batch of size zero, which is not cut off
  · rw [h, splitEvenly_nil, List.flatten_nil]
  · have hpos := List.length_pos_iff.2 h
    exact flatten_cut (pos_of_mem_batchSizes (by omega) (by omega)) (sum_batchSizes (by omega))

lemma map_length_splitEvenly (h : 0 < count) : (splitEvenly count xs).map List.length
    = batchSizes (min count xs.length) xs.length := by
  by_cases hxs : xs = []
  · rw [hxs, splitEvenly_nil, List.length_nil, Nat.min_zero]
    rfl
  · have hpos := List.length_pos_iff.2 hxs
    have hcount : min (max count 1) (max xs.length 1) = min count xs.length := by omega
    rw [splitEvenly, hcount]
    exact map_length_cut (pos_of_mem_batchSizes (by omega) (by omega))
      (sum_batchSizes (by omega)).le

/-- Of `count` batches, or fewer if there are not as many things, the first ones have what is left
over by an even division. -/
structure BalancedPartition (count : Nat) (xs : List α) (batches : List (List α)) : Prop where
  flatten : batches.flatten = xs
  nonempty : ∀ batch ∈ batches, batch ≠ []
  length : batches.length = min count xs.length
  sizes : batches.map List.length
    = List.replicate (xs.length % min count xs.length) (xs.length / min count xs.length + 1)
      ++ List.replicate (min count xs.length - xs.length % min count xs.length)
        (xs.length / min count xs.length)

/-- **Batches are balanced.** -/
theorem splitEvenly_balanced (xs : List α) (h : 0 < count) :
    BalancedPartition count xs (splitEvenly count xs) where
  flatten := flatten_splitEvenly count xs
  nonempty := ne_nil_of_mem_cut
  length := by
    rw [← List.length_map List.length, map_length_splitEvenly h, batchSizes, List.length_map,
      List.length_range]
  sizes := by
    rw [map_length_splitEvenly h]
    by_cases hxs : xs = []
    · rw [hxs, List.length_nil, Nat.min_zero]
      rfl
    · have hpos := List.length_pos_iff.2 hxs
      exact batchSizes_eq (by omega)

/-- Two for each of four leaves one of nine, which goes to the first. -/
theorem nine_in_four_balanced :
    0 < 4 ∧ splitEvenly 4 (List.range 9) = [[0, 1, 2], [3, 4], [5, 6], [7, 8]] ∧
      BalancedPartition 4 (List.range 9) (splitEvenly 4 (List.range 9)) :=
  ⟨by decide, by decide, splitEvenly_balanced (List.range 9) (by decide)⟩

end EpochRewards
