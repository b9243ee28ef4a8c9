import EpochRewards.Analysis
import EpochRewards.Proofs.Deliveries
import EpochRewards.Proofs.Interleaving
import Mathlib.Logic.Relation

/-!
Analyses under every schedule.

A schedule is any order of moves. The windows that were dispatched, what was queued of them and
the log of all messages so far are kept as history: the report and what is queued follow from
the windows alone, the log holds the messages of the dispatch in their order, and the rows of
the crew in it are those of the tasks that were queued.
-/

namespace EpochRewards

namespace Analysis

variable {σ : Type}

/-- One move of some actor. -/
def Move (k : Commission σ) (a a' : Analysis σ) : Prop :=
  ∃ branch actor, a.advance k branch actor = some a'

/-- Any number of moves in any order. -/
def Steps (k : Commission σ) : Analysis σ → Analysis σ → Prop :=
  Relation.ReflTransGen (Move k)

/-- Nobody can move. -/
def Finished (k : Commission σ) (a : Analysis σ) : Prop :=
  ∀ actor, a.advance k .closing actor = none

/-! ### The schedule of a run -/

lemma finished_of_next {k : Commission σ} {a : Analysis σ} (h : a.next? k = none) :
    Finished k a := by
  rw [next?, List.findSome?_eq_none_iff] at h
  intro actor
  cases actor with
  | worker m =>
    by_cases hm : m ∈ a.crew.moves
    · exact h _ (by simp [actors, hm])
    · rw [advance, Crew.advance_of_not_mem hm]
      rfl
  | fetcher => exact h _ (by simp [actors])
  | assembler => exact h _ (by simp [actors])
  | dispatcher => exact h _ (by simp [actors])
  | writer => exact h _ (by simp [actors])

/-- The moves of a run are one schedule. -/
theorem steps_settle (k : Commission σ) (a : Analysis σ) :
    Steps k a (a.settle k) ∧ Finished k (a.settle k) := by
  fun_induction settle k a with
  | case1 a h => exact ⟨.refl, finished_of_next h⟩
  | case2 a a' h _ ih =>
    obtain ⟨actor, -, hm⟩ := List.exists_of_findSome?_eq_some h
    exact ⟨.head ⟨_, actor, hm⟩ ih.1, ih.2⟩

end Analysis

end EpochRewards
