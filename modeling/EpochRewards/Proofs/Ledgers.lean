import EpochRewards.Ledger
import Mathlib.Algebra.Ring.Nat
import Mathlib.Data.List.Induction
import Mathlib.Data.List.Nodup
import Mathlib.Data.List.Sort
import Mathlib.Tactic.Common

/-!
Ledgers built from lists, and sums over the values of a ledger.
-/

namespace EpochRewards

namespace Ledger

variable {α β : Type} {l : Ledger β} {k : Nat} {v : β}

lemma nodup_keys (l : Ledger β) : l.keys.Nodup := l.ascending.imp Nat.ne_of_lt

lemma mem_keys_iff : k ∈ l.keys ↔ (l.get? k).isSome := by
  rw [keys, get?]
  induction l.entries with
  | nil => simp [find]
  | cons e rest ih =>
    obtain ⟨i, b⟩ := e
    by_cases hi : i = k
    · simp [find, hi]
    · rw [List.map_cons, List.mem_cons, find, if_neg hi, ← ih]
      simp [Ne.symm hi]

lemma get?_of_mem (h : (k, v) ∈ l.entries) : l.get? k = some v := by
  obtain ⟨entries, ascending⟩ := l
  show find k entries = some v
  induction entries with
  | nil => simp at h
  | cons e rest ih =>
    obtain ⟨i, b⟩ := e
    rw [List.map_cons, List.pairwise_cons] at ascending
    rcases List.mem_cons.1 h with he | hr
    · simp only [Prod.mk.injEq] at he
      rw [find, if_pos he.1.symm, he.2]
    · have : i < k := ascending.1 k (List.mem_map.2 ⟨_, hr, rfl⟩)
      rw [find, if_neg (Nat.ne_of_lt this)]
      exact ih ascending.2 hr

lemma entries_eq_filterMap (l : Ledger β) :
    l.entries = l.keys.filterMap fun k => (l.get? k).map (k, ·) := by
  rw [keys, List.filterMap_map]
  conv_lhs => rw [← List.filterMap_some (l := l.entries)]
  refine List.filterMap_congr fun e he => ?_
  rw [Function.comp_apply, get?_of_mem he]
  rfl

/-- A ledger is what is found under its keys. -/
lemma ext_get? {l l' : Ledger β} (h : ∀ k, l.get? k = l'.get? k) : l = l' := by
  have hmem (k : Nat) : k ∈ l.keys ↔ k ∈ l'.keys := by rw [mem_keys_iff, mem_keys_iff, h]
  have hkeys : l.keys = l'.keys := l.ascending.eq_of_mem_iff l'.ascending hmem
  have hentries : l.entries = l'.entries := by
    rw [entries_eq_filterMap, entries_eq_filterMap, hkeys, funext h]
  obtain ⟨entries, _⟩ := l
  cases hentries
  rfl

/-- A ledger of amounts is its keys and what is booked under them. -/
lemma ext_amount {l l' : Ledger Nat} (hkeys : ∀ k, l.contains k = l'.contains k)
    (hamounts : ∀ k, l.amount k = l'.amount k) : l = l' := by
  have hget (l : Ledger Nat) (k : Nat) :
      l.get? k = if l.contains k then some (l.amount k) else none := by
    unfold contains amount
    cases l.get? k <;> rfl
  exact ext_get? fun k => by rw [hget, hget, hkeys, hamounts]

lemma get?_erase (l : Ledger β) (k j : Nat) :
    (l.erase k).get? j = if j = k then none else l.get? j := by
  show find j (l.entries.filter (·.1 != k)) = if j = k then none else find j l.entries
  induction l.entries with
  | nil => simp [find]
  | cons e rest ih =>
    obtain ⟨i, b⟩ := e
    by_cases hi : i = k
    · subst hi
      rw [List.filter_cons_of_neg (by simp), ih, find]
      by_cases hj : j = i
      · rw [if_pos hj, if_pos hj]
      · rw [if_neg hj, if_neg hj, if_neg (Ne.symm hj)]
    · rw [List.filter_cons_of_pos (by simpa using hi), find, find, ih]
      by_cases hij : i = j
      · rw [if_pos hij, if_pos hij, if_neg (hij ▸ hi)]
      · rw [if_neg hij, if_neg hij]

@[simp] lemma amount_insert (l : Ledger Nat) (k n j : Nat) :
    (l.insert k n).amount j = if j = k then n else l.amount j := by
  rw [amount, get?_insert]
  split <;> rfl

@[simp] lemma contains_insert (l : Ledger β) (k j : Nat) (b : β) :
    (l.insert k b).contains j = (decide (j = k) || l.contains j) := by
  rw [contains, get?_insert]
  by_cases hj : j = k
  · simp [hj]
  · simp [hj, contains]

/-- What is found is found after an insertion too, perhaps replaced. -/
lemma isSome_insert (l : Ledger β) (k : Nat) (b : β) {j : Nat} (h : (l.get? j).isSome) :
    ((l.insert k b).get? j).isSome := by
  rw [get?_insert]
  split
  · rfl
  · exact h

lemma get?_of_mem_values (h : v ∈ l.values) : ∃ k, l.get? k = some v := by
  obtain ⟨⟨k, b⟩, hm, rfl⟩ := List.mem_map.1 h
  exact ⟨k, get?_of_mem hm⟩

lemma sum_upsert (k : Nat) (b : β) (f : β → Nat) (entries : List (Nat × β))
    (h : (entries.map (·.1)).Pairwise (· < ·)) :
    ((upsert k (fun _ => b) entries).map fun e => f e.2).sum + ((find k entries).map f).getD 0
      = (entries.map fun e => f e.2).sum + f b := by
  induction entries with
  | nil =>
    show f b + 0 + 0 = 0 + f b
    omega
  | cons e rest ih =>
    obtain ⟨i, v⟩ := e
    rw [List.map_cons, List.pairwise_cons] at h
    unfold upsert
    split
    · next hk =>
      have hnone : find k rest = none := find_eq_none fun j hj => Nat.lt_trans hk (h.1 j hj)
      rw [find, if_neg (Nat.ne_of_gt hk), hnone, List.map_cons, List.sum_cons]
      show f b + _ + 0 = _
      omega
    · split
      · next hik =>
        simp only [find, if_pos hik, List.map_cons, List.sum_cons, Option.map_some,
          Option.getD_some]
        omega
      · next hik =>
        have hrest := ih h.2
        simp only [find, if_neg hik, List.map_cons, List.sum_cons]
        omega

/-- A value that is put into a ledger takes the place of the one under its key in a sum. -/
lemma sum_values_insert (l : Ledger β) (k : Nat) (b : β) (f : β → Nat) :
    ((l.insert k b).values.map f).sum + ((l.get? k).map f).getD 0
      = (l.values.map f).sum + f b := by
  rw [values, values, List.map_map, List.map_map]
  exact sum_upsert k b f l.entries l.ascending

lemma countP_eq_sum (p : β → Bool) (bs : List β) :
    bs.countP p = (bs.map fun b => (p b).toNat).sum := by
  induction bs with
  | nil => rfl
  | cons b bs ih =>
    rw [List.countP_cons, List.map_cons, List.sum_cons, ih, Nat.add_comm]
    cases p b <;> rfl

/-- A value that is put into a ledger takes the place of the one under its key. -/
lemma countP_values_insert (l : Ledger β) (k : Nat) (b : β) (p : β → Bool) :
    (l.insert k b).values.countP p + (((l.get? k).map p).getD false).toNat
      = l.values.countP p + (p b).toNat := by
  have hfound : (((l.get? k).map p).getD false).toNat
      = ((l.get? k).map fun b => (p b).toNat).getD 0 := by cases l.get? k <;> rfl
  rw [countP_eq_sum, countP_eq_sum, hfound]
  exact l.sum_values_insert k b fun b => (p b).toNat

lemma countP_values_erase (l : Ledger β) (k : Nat) (p : β → Bool) :
    (l.erase k).values.countP p + (((l.get? k).map p).getD false).toNat = l.values.countP p := by
  obtain ⟨entries, ascending⟩ := l
  show ((entries.filter (·.1 != k)).map (·.2)).countP p
      + (((find k entries).map p).getD false).toNat = (entries.map (·.2)).countP p
  induction entries with
  | nil => rfl
  | cons e rest ih =>
    obtain ⟨i, v⟩ := e
    rw [List.map_cons, List.pairwise_cons] at ascending
    have hrest := ih ascending.2
    by_cases hik : i = k
    · have hnone : find k rest = none := find_eq_none fun j hj => hik ▸ ascending.1 j hj
      rw [hnone] at hrest
      rw [List.filter_cons_of_neg (by simpa using hik), find, if_pos hik, Option.map_some,
        Option.getD_some, List.map_cons, List.countP_cons, ← hrest]
      cases p v <;> rfl
    · rw [List.filter_cons_of_pos (by simpa using hik), find, if_neg hik, List.map_cons,
        List.map_cons, List.countP_cons, List.countP_cons]
      omega

/-- A figure that follows from the key alone can be summed over the keys. -/
lemma map_values {f : β → α} {g : Nat → α} (h : ∀ k v, l.get? k = some v → f v = g k) :
    l.values.map f = l.keys.map g := by
  rw [values, keys, List.map_map, List.map_map]
  exact List.map_congr_left fun e he => h e.1 e.2 (get?_of_mem he)

/-- Of several pairs with one key the last is kept. -/
lemma get?_ofList (xs : List (Nat × β)) (k : Nat) :
    (ofList xs).get? k = (xs.reverse.find? (·.1 == k)).map (·.2) := by
  induction xs using List.reverseRecOn with
  | nil => rfl
  | append_singleton xs x ih =>
    have hlast : ofList (xs ++ [x]) = (ofList xs).insert x.1 x.2 := List.foldl_concat ..
    rw [hlast, get?_insert, ih, List.reverse_concat, List.find?_cons]
    by_cases hk : k = x.1
    · simp [hk]
    · simp [hk, beq_false_of_ne (Ne.symm hk)]

/-- A pair whose key no other pair has is found under it. -/
lemma get?_ofList_of_mem {xs : List (Nat × β)} (h : (k, v) ∈ xs)
    (honly : ∀ x ∈ xs, x.1 = k → x.2 = v) : (ofList xs).get? k = some v := by
  have hfound : (xs.reverse.find? (·.1 == k)).isSome = true :=
    List.find?_isSome.2 ⟨(k, v), List.mem_reverse.2 h, beq_self_eq_true k⟩
  obtain ⟨x, hx⟩ := Option.isSome_iff_exists.1 hfound
  have hkey : x.1 = k := by simpa using List.find?_some hx
  rw [get?_ofList, hx, Option.map_some,
    honly x (List.mem_reverse.1 (List.mem_of_find?_eq_some hx)) hkey]

lemma get?_ofList_eq_none {xs : List (Nat × β)} (h : ∀ x ∈ xs, x.1 ≠ k) :
    (ofList xs).get? k = none := by
  have hnone : xs.reverse.find? (·.1 == k) = none := by
    refine List.find?_eq_none.2 fun x hx => ?_
    simpa using h x (List.mem_reverse.1 hx)
  rw [get?_ofList, hnone]
  rfl

lemma get?_foldl_const (ks : List Nat) (l : Ledger β) (d : β) (k : Nat) :
    ((ks.map (·, d)).foldl (fun l (k, b) => l.insert k b) l).get? k
      = if k ∈ ks then some d else l.get? k := by
  induction ks generalizing l with
  | nil => simp
  | cons j ks ih =>
    rw [List.map_cons, List.foldl_cons, ih, get?_insert]
    by_cases hk : k ∈ ks
    · simp [hk]
    · simp [hk]

/-- A ledger of one value has it under every key listed. -/
lemma get?_ofList_const (ks : List Nat) (d : β) (k : Nat) :
    (ofList (ks.map (·, d))).get? k = if k ∈ ks then some d else none :=
  get?_foldl_const ks empty d k

end Ledger

/-- An element counts once for each time that its key is among the keys. -/
lemma sum_countP_cons {α : Type} (ks : List Nat) (key : α → Nat) (x : α) (xs : List α) :
    (ks.map fun k => (x :: xs).countP (key · = k)).sum
      = (ks.map fun k => xs.countP (key · = k)).sum + ks.count (key x) := by
  induction ks with
  | nil => rfl
  | cons k ks ih =>
    rw [List.map_cons, List.sum_cons, ih, List.map_cons, List.sum_cons, List.countP_cons,
      List.count_cons]
    by_cases h : key x = k
    · rw [decide_eq_true h, if_pos rfl, h, if_pos (beq_self_eq_true k)]
      omega
    · have hbeq : ¬ (k == key x) = true := fun hk => h (eq_of_beq hk).symm
      rw [decide_eq_false h, if_neg Bool.false_ne_true, if_neg hbeq]
      omega

/-- Counting by key counts everything once. -/
lemma sum_countP_key {α : Type} {ks : List Nat} (hk : ks.Nodup) (key : α → Nat) {xs : List α}
    (h : ∀ x ∈ xs, key x ∈ ks) :
    (ks.map fun k => xs.countP (key · = k)).sum = xs.length := by
  induction xs with
  | nil => simp
  | cons x xs ih =>
    have hcount := List.count_eq_one_of_mem hk (h x List.mem_cons_self)
    rw [sum_countP_cons, ih fun y hy => h y (List.mem_cons_of_mem _ hy), hcount, List.length_cons]

end EpochRewards
