import Mathlib.Data.List.Basic
import Mathlib.Tactic.Common

/-!
First occurrences in a list whose elements have keys.
-/

namespace EpochRewards

variable {α κ : Type} [DecidableEq κ]

/-- The elements with a key that none before them has. -/
def firsts (key : α → κ) : List α → List α
  | [] => []
  | a :: as => a :: (firsts key as).filter (key · ≠ key a)

variable {key : α → κ}

lemma mem_keys_firsts {as : List α} {k : κ} : k ∈ (firsts key as).map key ↔ k ∈ as.map key := by
  induction as with
  | nil => rfl
  | cons a as ih =>
    simp only [List.mem_map] at ih
    by_cases hk : k = key a
    · simp [firsts, hk]
    · simp only [firsts, List.map_cons, List.mem_cons, hk, false_or, List.mem_map,
        List.mem_filter, decide_eq_true_eq]
      rw [← ih]
      constructor
      · rintro ⟨b, ⟨hb, -⟩, rfl⟩
        exact ⟨b, hb, rfl⟩
      · rintro ⟨b, hb, rfl⟩
        exact ⟨b, ⟨hb, hk⟩, rfl⟩

lemma mem_of_mem_firsts {as : List α} {a : α} (h : a ∈ firsts key as) : a ∈ as := by
  induction as with
  | nil => exact h
  | cons b as ih =>
    rcases List.mem_cons.1 h with rfl | h
    · exact List.mem_cons_self
    · exact List.mem_cons_of_mem _ (ih (List.mem_filter.1 h).1)

/-- Every key occurs once among the first occurrences. -/
lemma nodup_keys_firsts (as : List α) : ((firsts key as).map key).Nodup := by
  induction as with
  | nil => exact .nil
  | cons a as ih =>
    rw [firsts, List.map_cons, List.nodup_cons]
    refine ⟨?_, ih.sublist (List.filter_sublist.map key)⟩
    simp

lemma firsts_eq_self {as : List α} (h : (as.map key).Nodup) : firsts key as = as := by
  induction as with
  | nil => rfl
  | cons a as ih =>
    rw [List.map_cons, List.nodup_cons] at h
    rw [firsts, ih h.2, List.filter_eq_self.2]
    intro b hb
    rw [decide_eq_true_eq]
    intro hk
    exact h.1 (hk ▸ List.mem_map_of_mem hb)

lemma firsts_append (as bs : List α) :
    firsts key (as ++ bs) = firsts key as ++ (firsts key bs).filter (key · ∉ as.map key) := by
  induction as with
  | nil => simp [firsts]
  | cons a as ih =>
    rw [List.cons_append, firsts, firsts, ih, List.filter_append, List.filter_filter,
      List.cons_append]
    congr 3
    funext b
    simp [not_or]

lemma firsts_append_singleton (as : List α) (a : α) :
    firsts key (as ++ [a]) = firsts key as ++ if key a ∈ as.map key then [] else [a] := by
  have hs : firsts key [a] = [a] := rfl
  rw [firsts_append, hs]
  split
  · next h => rw [List.filter_cons_of_neg (by simpa using h), List.filter_nil]
  · next h => rw [List.filter_cons_of_pos (by simpa using h), List.filter_nil]

lemma mem_keys_iff_find {as : List α} {k : κ} :
    k ∈ as.map key ↔ (as.find? (key · = k)).isSome := by
  simp [List.find?_isSome]

lemma find_append_singleton (as : List α) (a : α) (k : κ) :
    (as ++ [a]).find? (key · = k)
      = (as.find? (key · = k)).or (if key a = k then some a else none) := by
  rw [List.find?_append]
  congr 1
  split
  · next h => simp [h]
  · next h => simp [h]

end EpochRewards
