import EpochRewards.Proofs.Contracts
import EpochRewards.Word
import Mathlib

/-!
Words: how their operations fail, the root taken bit by bit, and bounds of sums.
-/

namespace EpochRewards

/-- The faults of sums and products that are no words. -/
def Fault.IsOverflow (f : Fault) : Prop := f = .addOverflow ∨ f = .mulOverflow

def Failure.IsOverflow {ε : Type} : Failure ε → Prop
  | .fault f => f.IsOverflow
  | .error _ => False

/-- An error of the domain, or an overflow. -/
def Failure.Tame {ε : Type} : Failure ε → Prop
  | .fault f => f.IsOverflow
  | .error _ => True

namespace Word

open Calc

variable {a b : Nat} {xs : List Nat}

/-! ### Results -/

lemma add_eq (h : a + b < bound) : add a b = .ok (a + b) := if_pos h

lemma mul_eq (h : a * b < bound) : mul a b = .ok (a * b) := if_pos h

lemma div_eq (h : b ≠ 0) : div a b = .ok (a / b) := if_neg h

lemma sub_eq (h : b ≤ a) : sub a b = .ok (a - b) := if_pos h

lemma div_ok {c : Nat} : div a b = .ok c ↔ b ≠ 0 ∧ a / b = c := by
  unfold div
  split
  · next h => simp [h]
  · next h => simp [h]

lemma sub_ok {c : Nat} : sub a b = .ok c ↔ b ≤ a ∧ a - b = c := by
  unfold sub
  split
  · next h => simp [h]
  · next h => simp [h]

lemma foldlM_add (h : a + xs.sum < bound) : xs.foldlM add a = .ok (a + xs.sum) := by
  induction xs generalizing a with
  | nil => rfl
  | cons x xs ih =>
    rw [List.sum_cons, ← Nat.add_assoc] at h
    have hx : a + x < bound := Nat.lt_of_le_of_lt (Nat.le_add_right _ _) h
    rw [List.foldlM_cons, add_eq hx, List.sum_cons, ← Nat.add_assoc]
    exact ih h

lemma sum_eq (h : xs.sum < bound) : sum xs = .ok xs.sum := by
  have hzero : 0 + xs.sum < bound := by rwa [Nat.zero_add]
  rw [sum, foldlM_add hzero, Nat.zero_add]

lemma foldlM_add_ok {n : Nat} (h : xs.foldlM add a = .ok n) : a + xs.sum = n := by
  induction xs generalizing a with
  | nil => exact Calc.pure_ok.1 h
  | cons x xs ih =>
    rw [List.foldlM_cons, bind_ok] at h
    obtain ⟨_, hx, h⟩ := h
    rw [List.sum_cons, ← Nat.add_assoc, (add_ok.1 hx).2]
    exact ih h

lemma sum_ok {n : Nat} (h : sum xs = .ok n) : xs.sum = n :=
  (Nat.zero_add _).symm.trans (foldlM_add_ok h)

/-! ### Failures -/

variable {E : Fault → Prop}

lemma errs_add_of_lt (h : a + b < bound) : Errs E (add a b) := by
  rw [add_eq h]
  exact .ok _

lemma errs_mul_of_lt (h : a * b < bound) : Errs E (mul a b) := by
  rw [mul_eq h]
  exact .ok _

lemma errs_add : Errs Fault.IsOverflow (add a b) := by
  intro f h
  unfold add at h
  split at h
  · cases h
  · cases h
    exact .inl rfl

lemma errs_mul : Errs Fault.IsOverflow (mul a b) := by
  intro f h
  unfold mul at h
  split at h
  · cases h
  · cases h
    exact .inr rfl

lemma errs_div (h : b ≠ 0) : Errs E (div a b) := by
  rw [div_eq h]
  exact .ok _

/-- A quotient is no overflow. -/
lemma no_overflow_div : Errs (fun f => ¬ f.IsOverflow) (div a b) := by
  intro f h
  unfold div at h
  split at h
  · cases h
    rintro (h | h)
    · cases h
    · cases h
  · cases h

lemma no_overflow_sub : Errs (fun f => ¬ f.IsOverflow) (sub a b) := by
  intro f h
  unfold sub at h
  split at h
  · cases h
  · cases h
    rintro (h | h)
    · cases h
    · cases h

lemma errs_sum : Errs Fault.IsOverflow (sum xs) :=
  (Errs.foldlM (J := fun _ _ => True) trivial fun _ _ _ _ _ => ⟨errs_add, fun _ _ => trivial⟩).1

/-! ### The root -/

/-- The bits still to be found are those of what the square of the higher ones leaves. -/
lemma sqrtBits_spec (n k r : Nat) (hr : r * r ≤ n) (hn : n < (r + 2 ^ k) * (r + 2 ^ k)) :
    sqrtBits n k r * sqrtBits n k r ≤ n ∧
      n < (sqrtBits n k r + 1) * (sqrtBits n k r + 1) := by
  induction k generalizing r with
  | zero => exact ⟨hr, hn⟩
  | succ k ih =>
    have hshift : 1 <<< k = 2 ^ k := Nat.one_shiftLeft k
    have hdouble : r + 2 ^ (k + 1) = r + 2 ^ k + 2 ^ k := by rw [Nat.pow_succ]; omega
    rw [sqrtBits, hshift]
    split
    · next hc => exact ih _ hc (by rwa [← hdouble])
    · next hc => exact ih _ hr (Nat.lt_of_not_le hc)

/-- The root is the largest number whose square is at most `n`. -/
theorem sqrt_spec (n : Nat) : sqrt n * sqrt n ≤ n ∧ n < (sqrt n + 1) * (sqrt n + 1) := by
  refine sqrtBits_spec n _ 0 (Nat.zero_le n) ?_
  have hlog : n < 2 ^ (n.log2 + 1) := Nat.lt_log2_self
  have hexp : n.log2 + 1 ≤ n.log2 / 2 + 1 + (n.log2 / 2 + 1) := by omega
  calc n < 2 ^ (n.log2 + 1) := hlog
    _ ≤ 2 ^ (n.log2 / 2 + 1 + (n.log2 / 2 + 1)) := Nat.pow_le_pow_right (by decide) hexp
    _ = (0 + 2 ^ (n.log2 / 2 + 1)) * (0 + 2 ^ (n.log2 / 2 + 1)) := by rw [Nat.pow_add, Nat.zero_add]

lemma le_sqrt {m n : Nat} (h : m * m ≤ n) : m ≤ sqrt n := by
  have hlt : m * m < (sqrt n + 1) * (sqrt n + 1) := Nat.lt_of_le_of_lt h (sqrt_spec n).2
  exact Nat.le_of_lt_succ (Nat.mul_self_lt_mul_self_iff.1 hlt)

example : sqrt 1000000000 = 31622 := by decide

end Word

/-! ### Bounds of sums -/

/-- A list without repetitions adds up to no more than one that has all its terms. -/
lemma sum_map_le_of_nodup {α : Type} {f : α → Nat} {l m : List α} (hl : l.Nodup)
    (hm : ∀ a ∈ l, f a ≠ 0 → a ∈ m) : (l.map f).sum ≤ (m.map f).sum := by
  induction l generalizing m with
  | nil => exact Nat.zero_le _
  | cons a l ih =>
    obtain ⟨ha, hl⟩ := List.nodup_cons.1 hl
    rw [List.map_cons, List.sum_cons]
    by_cases hzero : f a = 0
    · rw [hzero, Nat.zero_add]
      exact ih hl fun b hb => hm b (List.mem_cons_of_mem _ hb)
    · classical
      have hmem : a ∈ m := hm a List.mem_cons_self hzero
      have hrest : (l.map f).sum ≤ ((m.erase a).map f).sum := by
        refine ih hl fun b hb hfb => ?_
        have hne : b ≠ a := fun h => ha (h ▸ hb)
        exact (List.mem_erase_of_ne hne).2 (hm b (List.mem_cons_of_mem _ hb) hfb)
      have hperm : (m.map f).sum = ((a :: m.erase a).map f).sum :=
        ((List.perm_cons_erase hmem).map f).sum_eq
      rw [hperm, List.map_cons, List.sum_cons]
      exact Nat.add_le_add_left hrest _

end EpochRewards
