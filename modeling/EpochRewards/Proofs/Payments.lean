import EpochRewards.Proofs.Pass
import EpochRewards.Reward.Bundle

/-!
Payments to proposers.

A payment is booked twice, under the proposer and under the slot of the block. What a list of
payments changes in the two ledgers is the same whatever pass makes them.
-/

namespace EpochRewards

structure Payment where
  block : Block
  amount : Gwei

namespace Payment

/-- What a list of payments comes to for a proposer. -/
def incomeOf (ps : List Payment) (v : ValidatorIndex) : Gwei :=
  ((ps.filter (·.block.proposer = v)).map (·.amount)).sum

/-- What a list of payments comes to for the blocks of a slot. -/
def incomeAt (ps : List Payment) (s : Slot) : Gwei :=
  ((ps.filter (·.block.slot = s)).map (·.amount)).sum

lemma incomeOf_append (ps qs : List Payment) (v : ValidatorIndex) :
    incomeOf (ps ++ qs) v = incomeOf ps v + incomeOf qs v := by
  rw [incomeOf, List.filter_append, List.map_append, List.sum_append]
  rfl

lemma incomeAt_append (ps qs : List Payment) (s : Slot) :
    incomeAt (ps ++ qs) s = incomeAt ps s + incomeAt qs s := by
  rw [incomeAt, List.filter_append, List.map_append, List.sum_append]
  rfl

lemma incomeOf_singleton (p : Payment) (v : ValidatorIndex) :
    incomeOf [p] v = if p.block.proposer = v then p.amount else 0 := by
  by_cases h : p.block.proposer = v
  · simp [incomeOf, h]
  · simp [incomeOf, h]

lemma incomeAt_singleton (p : Payment) (s : Slot) :
    incomeAt [p] s = if p.block.slot = s then p.amount else 0 := by
  by_cases h : p.block.slot = s
  · simp [incomeAt, h]
  · simp [incomeAt, h]

end Payment

namespace Ledger

lemma credit_ok {l l' : Ledger Nat} {k n : Nat} (h : l.credit k n = .ok l') (j : Nat) :
    l'.amount j = l.amount j + if k = j then n else 0 := by
  simp only [credit, Calc.bind_ok, Word.add_ok, Calc.pure_ok] at h
  obtain ⟨_, ⟨-, rfl⟩, rfl⟩ := h
  rw [amount, get?_insert]
  by_cases hj : j = k
  · subst hj
    simp
  · rw [if_neg hj, if_neg (Ne.symm hj)]
    rfl

end Ledger

namespace Bundle

open Payment

/-- The bundle after payments were made and votes were counted. -/
structure Pays (b : Bundle) (ps : List Payment) (c : Bundle) : Prop where
  frame : c = { b with
    maxProposerRewards := c.maxProposerRewards
    blockTallies := c.blockTallies }
  proposer : ∀ v, c.maxProposerRewards.amount v = b.maxProposerRewards.amount v + incomeOf ps v
  manual : ∀ s, (c.blockTallies.get? s).map (·.manualReward)
    = (b.blockTallies.get? s).map fun t => t.manualReward + incomeAt ps s
  listed : ∀ p ∈ ps, (b.blockTallies.get? p.block.slot).isSome

variable {b c d : Bundle} {ps qs : List Payment} {u : Unit}

lemma pays_nil (b : Bundle) : Pays b [] b where
  frame := rfl
  proposer _ := rfl
  manual _ := rfl
  listed p hp := by simp at hp

lemma Pays.trans (h₁ : Pays b ps c) (h₂ : Pays c qs d) : Pays b (ps ++ qs) d where
  frame := by rw [h₂.frame, h₁.frame]
  proposer v := by rw [h₂.proposer, h₁.proposer, incomeOf_append, Nat.add_assoc]
  manual s := by
    have h := congrArg (Option.map (· + incomeAt qs s)) (h₁.manual s)
    rw [Option.map_map, Option.map_map] at h
    rw [h₂.manual, incomeAt_append]
    simp only [← Nat.add_assoc]
    exact h
  listed p hp := by
    rcases List.mem_append.1 hp with hp | hp
    · exact h₁.listed p hp
    · have h := congrArg Option.isSome (h₁.manual p.block.slot)
      rw [Option.isSome_map, Option.isSome_map] at h
      rw [← h]
      exact h₂.listed p hp

/-- Counting a vote pays nothing. -/
lemma pays_insert {s : Slot} {t k : BlockTally} (ht : b.blockTallies.get? s = some t)
    (hk : k.manualReward = t.manualReward) :
    Pays b [] { b with blockTallies := b.blockTallies.insert s k } where
  frame := rfl
  proposer _ := rfl
  manual r := by
    show ((b.blockTallies.insert s k).get? r).map _ = _
    rw [Ledger.get?_insert]
    split
    · next h => rw [h, ht, Option.map_some, Option.map_some, hk]; rfl
    · rfl
  listed p hp := by simp at hp

lemma countVote_pays {s : Slot} (h : countVote s b = .ok u c) : Pays b [] c := by
  obtain ⟨t, ht, rfl⟩ := countVote_ok h
  exact pays_insert ht rfl

lemma countNewVote_pays {s : Slot} (h : countNewVote s b = .ok u c) : Pays b [] c := by
  obtain ⟨t, ht, rfl⟩ := countNewVote_ok h
  exact pays_insert ht rfl

/-- A payment is booked under the proposer and under the slot of the block. -/
lemma payProposer_ok {block : Block} {amount : Gwei} (h : payProposer block amount b = .ok u c) :
    ∃ t, b.blockTallies.get? block.slot = some t ∧
      b.maxProposerRewards.amount block.proposer + amount < Word.bound ∧
        c = { b with
          maxProposerRewards := b.maxProposerRewards.insert block.proposer
            (b.maxProposerRewards.amount block.proposer + amount)
          blockTallies := b.blockTallies.insert block.slot
            { t with manualReward := t.manualReward + amount } } := by
  simp only [payProposer, creditProposer, addManualReward, Pass.bind_ok, Pass.get_ok, Pass.lift_ok,
    Pass.fault_ok, Pass.modify_ok, blockTally, Calc.orFail_ok, setBlockTally, Word.add_ok,
    Ledger.credit, Calc.bind_ok, Calc.pure_ok] at h
  obtain ⟨_, _, ⟨_, _, ⟨rfl, rfl⟩, _, _, ⟨⟨_, ⟨hfits, rfl⟩, rfl⟩, rfl⟩, rfl⟩, _, _, ⟨rfl, rfl⟩, t, _,
    ⟨ht, rfl⟩, _, _, ⟨⟨-, rfl⟩, rfl⟩, rfl⟩ := h
  exact ⟨t, ht, hfits, rfl⟩

lemma payProposer_pays {block : Block} {amount : Gwei}
    (h : payProposer block amount b = .ok u c) : Pays b [⟨block, amount⟩] c := by
  obtain ⟨t, ht, -, rfl⟩ := payProposer_ok h
  refine ⟨rfl, fun v => ?_, fun s => ?_, fun p hp => ?_⟩
  · rw [incomeOf_singleton]
    show Option.getD ((b.maxProposerRewards.insert _ _).get? v) 0 = _
    rw [Ledger.get?_insert]
    by_cases hv : v = block.proposer
    · rw [if_pos hv, if_pos hv.symm, hv]
      rfl
    · rw [if_neg hv, if_neg (Ne.symm hv)]
      rfl
  · show ((b.blockTallies.insert block.slot _).get? s).map _ = _
    rw [Ledger.get?_insert, incomeAt_singleton]
    by_cases hs : s = block.slot
    · subst hs
      rw [if_pos rfl, if_pos rfl, ht, Option.map_some, Option.map_some]
    · rw [if_neg hs, if_neg (Ne.symm hs)]
      rfl
  · rw [List.mem_singleton.1 hp]
    exact Option.isSome_of_eq_some ht

end Bundle

end EpochRewards
