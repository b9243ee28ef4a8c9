import EpochRewards.Word

/-!
Ledgers: finite maps from numbers, kept as a list in ascending order of the keys.
-/

namespace EpochRewards

structure Ledger (β : Type) where
  entries : List (Nat × β)
  ascending : (entries.map (·.1)).Pairwise (· < ·)
  deriving DecidableEq

namespace Ledger

variable {β : Type}

def find (k : Nat) : List (Nat × β) → Option β
  | [] => none
  | (i, b) :: rest => if i = k then some b else find k rest

/-- Puts `f` of the value found under `k` there, at the place its key has in the order. -/
def upsert (k : Nat) (f : Option β → β) : List (Nat × β) → List (Nat × β)
  | [] => [(k, f none)]
  | (i, b) :: rest =>
    if k < i then (k, f none) :: (i, b) :: rest
    else if i = k then (k, f (some b)) :: rest
    else (i, b) :: upsert k f rest

theorem find_eq_none {k : Nat} {l : List (Nat × β)} (h : ∀ i ∈ l.map (·.1), k < i) :
    find k l = none := by
  induction l with
  | nil => rfl
  | cons p rest ih =>
    obtain ⟨i, b⟩ := p
    have hi : k < i := h i (by simp)
    simp [find, Nat.ne_of_gt hi, ih fun j hj => h j (by simp at hj ⊢; exact Or.inr hj)]

theorem mem_keys_upsert {k j : Nat} {f : Option β → β} {l : List (Nat × β)} :
    j ∈ (upsert k f l).map (·.1) ↔ j = k ∨ j ∈ l.map (·.1) := by
  induction l with
  | nil => simp [upsert]
  | cons p rest ih =>
    obtain ⟨i, b⟩ := p
    unfold upsert
    split
    · simp
    · split
      · next h => subst h; simp
      · simp only [List.map_cons, List.mem_cons, ih]
        grind

theorem ascending_upsert {k : Nat} {f : Option β → β} {l : List (Nat × β)}
    (h : (l.map (·.1)).Pairwise (· < ·)) : ((upsert k f l).map (·.1)).Pairwise (· < ·) := by
  induction l with
  | nil => simp [upsert]
  | cons p rest ih =>
    obtain ⟨i, b⟩ := p
    simp only [List.map_cons, List.pairwise_cons] at h
    unfold upsert
    split
    · next hk =>
      simp only [List.map_cons, List.pairwise_cons]
      exact ⟨by
        intro j hj
        rcases List.mem_cons.1 hj with rfl | hj
        · exact hk
        · exact Nat.lt_trans hk (h.1 j hj), h.1, h.2⟩
    · split
      · next he => subst he; simpa using h
      · simp only [List.map_cons, List.pairwise_cons]
        refine ⟨?_, ih h.2⟩
        intro j hj
        rcases mem_keys_upsert.1 hj with rfl | hj
        · omega
        · exact h.1 j hj

theorem find_upsert {k j : Nat} {f : Option β → β} {l : List (Nat × β)}
    (h : (l.map (·.1)).Pairwise (· < ·)) :
    find j (upsert k f l) = if j = k then some (f (find k l)) else find j l := by
  induction l with
  | nil => simp [upsert, find, eq_comm]
  | cons p rest ih =>
    obtain ⟨i, b⟩ := p
    simp only [List.map_cons, List.pairwise_cons] at h
    unfold upsert
    split
    · next hk =>
      have hn : find k rest = none := find_eq_none fun x hx => Nat.lt_trans hk (h.1 x hx)
      have hik : i ≠ k := Nat.ne_of_gt hk
      by_cases hj : j = k
      · subst hj; simp [find, hik, hn]
      · simp [find, hj, Ne.symm hj]
    · split
      · next he =>
        subst he
        by_cases hj : j = i
        · subst hj; simp [find]
        · simp [find, hj, Ne.symm hj]
      · next hik =>
        by_cases hj : j = k
        · subst hj; simp [find, hik, ih h.2]
        · by_cases hij : i = j
          · simp [find, hij, hj]
          · simp [find, hij, hj, ih h.2]

def empty : Ledger β := ⟨[], by simp⟩

def get? (l : Ledger β) (k : Nat) : Option β := find k l.entries

def contains (l : Ledger β) (k : Nat) : Bool := (l.get? k).isSome

def alter (l : Ledger β) (k : Nat) (f : Option β → β) : Ledger β :=
  ⟨upsert k f l.entries, ascending_upsert l.ascending⟩

def insert (l : Ledger β) (k : Nat) (b : β) : Ledger β := l.alter k fun _ => b

def erase (l : Ledger β) (k : Nat) : Ledger β :=
  ⟨l.entries.filter (·.1 != k), by
    have h := l.ascending
    rw [List.pairwise_map] at h ⊢
    exact h.filter _⟩

def keys (l : Ledger β) : List Nat := l.entries.map (·.1)

def values (l : Ledger β) : List β := l.entries.map (·.2)

/-- Later pairs replace earlier ones of the same key. -/
def ofList (xs : List (Nat × β)) : Ledger β := xs.foldl (fun l (k, b) => l.insert k b) empty

@[simp] theorem get?_empty (k : Nat) : (empty : Ledger β).get? k = none := rfl

@[simp] theorem get?_alter (l : Ledger β) (k j : Nat) (f : Option β → β) :
    (l.alter k f).get? j = if j = k then some (f (l.get? k)) else l.get? j :=
  find_upsert l.ascending

@[simp] theorem get?_insert (l : Ledger β) (k j : Nat) (b : β) :
    (l.insert k b).get? j = if j = k then some b else l.get? j := by simp [insert]

/-- The amount booked under `k`. -/
def amount (l : Ledger Nat) (k : Nat) : Nat := (l.get? k).getD 0

/-- Books `amount` under `k` on top of what is there. -/
def credit (l : Ledger Nat) (k amount : Nat) : Except Fault (Ledger Nat) := do
  let total ← Word.add (l.amount k) amount
  return l.insert k total

end Ledger

end EpochRewards
