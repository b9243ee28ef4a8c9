import EpochRewards.Reward.Bundle
import Mathlib.Algebra.Ring.Nat
import Mathlib.Data.List.Basic
import Mathlib.Tactic.Common

/-!
Successful computations and passes, taken apart into their steps.
-/

namespace EpochRewards

/-! ### Computations -/

namespace Calc

variable {ε α β : Type}

lemma bind_ok {x : Except ε α} {f : α → Except ε β} {b : β} :
    (x >>= f) = .ok b ↔ ∃ a, x = .ok a ∧ f a = .ok b := by
  cases x with
  | error e => simp [bind, Except.bind]
  | ok a => simp [bind, Except.bind]

lemma pure_ok {a b : α} : (pure a : Except ε α) = .ok b ↔ a = b := by
  simp [pure, Except.pure]

lemma map_ok {f : α → β} {x : Except ε α} {b : β} :
    f <$> x = .ok b ↔ ∃ a, x = .ok a ∧ f a = b := by
  cases x with
  | error e => simp [Functor.map, Except.map]
  | ok a => simp [Functor.map, Except.map]

lemma orFail_ok {x : Option α} {e : ε} {a : α} : x.orFail e = .ok a ↔ x = some a := by
  cases x <;> simp [Option.orFail]

lemma toOption_eq_some {x : Except ε α} {a : α} : x.toOption = some a ↔ x = .ok a := by
  cases x with
  | error e => exact ⟨nofun, nofun⟩
  | ok b => exact ⟨fun h => congrArg _ (Option.some.inj h), fun h => congrArg _ (Except.ok.inj h)⟩

lemma ok_of_isSome {x : Except ε α} (h : x.toOption.isSome = true) : ∃ a, x = .ok a := by
  obtain ⟨a, ha⟩ := Option.isSome_iff_exists.1 h
  exact ⟨a, toOption_eq_some.1 ha⟩

lemma fault_ok {x : Except Fault α} {a : α} :
    (liftM x : Except (Failure ε) α) = .ok a ↔ x = .ok a := by
  cases x with
  | error f =>
    show (Except.error (Failure.fault f) : Except (Failure ε) α) = .ok a ↔ _
    simp
  | ok b =>
    show (Except.ok b : Except (Failure ε) α) = .ok a ↔ _
    simp

/-- The results of a list of computations that all succeed, one by one. -/
lemma mapM_ok {f : α → Except ε β} {xs : List α} {ys : List β} :
    xs.mapM f = .ok ys ↔ List.Forall₂ (fun x y => f x = .ok y) xs ys := by
  induction xs generalizing ys with
  | nil =>
    rw [List.mapM_nil, pure_ok]
    constructor
    · rintro rfl
      exact .nil
    · rintro ⟨⟩
      rfl
  | cons x xs ih =>
    simp only [List.mapM_cons, bind_ok, pure_ok, ih]
    constructor
    · rintro ⟨y, hy, zs, hzs, rfl⟩
      exact .cons hy hzs
    · intro h
      cases h with
      | cons hy hzs => exact ⟨_, hy, _, hzs, rfl⟩

end Calc

namespace Word

lemma add_ok {a b c : Nat} : add a b = .ok c ↔ a + b < bound ∧ a + b = c := by
  unfold add
  split
  · next h => simp [h]
  · next h => simp [h]

lemma mul_ok {a b c : Nat} : mul a b = .ok c ↔ a * b < bound ∧ a * b = c := by
  unfold mul
  split
  · next h => simp [h]
  · next h => simp [h]

end Word

/-! ### Passes -/

namespace Pass

variable {ε σ α β : Type} {s s' : σ}

lemma bind_ok {x : EStateM ε σ α} {f : α → EStateM ε σ β} {b : β} :
    (x >>= f) s = .ok b s' ↔ ∃ a u, x s = .ok a u ∧ f a u = .ok b s' := by
  show (x.bind f) s = .ok b s' ↔ _
  unfold EStateM.bind
  cases x s <;> simp

lemma pure_ok {a b : α} : (pure a : EStateM ε σ α) s = .ok b s' ↔ a = b ∧ s = s' := by
  show EStateM.Result.ok a s = .ok b s' ↔ _
  simp

lemma get_ok {u : σ} : (get : EStateM ε σ σ) s = .ok u s' ↔ s = u ∧ s = s' := by
  show EStateM.Result.ok s s = .ok u s' ↔ _
  simp

lemma modify_ok {f : σ → σ} {u : PUnit} :
    (modify f : EStateM ε σ PUnit) s = .ok u s' ↔ f s = s' := by
  show EStateM.Result.ok PUnit.unit (f s) = .ok u s' ↔ _
  simp

lemma lift_ok {x : Except ε α} {a : α} :
    (liftM x : EStateM ε σ α) s = .ok a s' ↔ x = .ok a ∧ s = s' := by
  cases x with
  | error e =>
    show EStateM.Result.error e s = .ok a s' ↔ _
    simp
  | ok b =>
    show EStateM.Result.ok b s = .ok a s' ↔ _
    simp

lemma fault_ok {x : Except Fault α} {a : α} :
    (liftM x : EStateM (Failure ε) σ α) s = .ok a s' ↔ x = .ok a ∧ s = s' := by
  cases x with
  | error f =>
    show EStateM.Result.error (Failure.fault f) s = .ok a s' ↔ _
    simp
  | ok b =>
    show EStateM.Result.ok b s = .ok a s' ↔ _
    simp

lemma mapM_cons_ok {f : α → EStateM ε σ β} {x : α} {xs : List α} {ys : List β} :
    ((x :: xs).mapM f) s = .ok ys s' ↔
      ∃ y u zs, f x s = .ok y u ∧ (xs.mapM f) u = .ok zs s' ∧ y :: zs = ys := by
  simp only [List.mapM_cons, bind_ok, pure_ok]
  constructor
  · rintro ⟨y, u, hy, zs, u', hzs, h, rfl⟩
    exact ⟨y, u, zs, hy, hzs, h⟩
  · rintro ⟨y, u, zs, hy, hzs, h⟩
    exact ⟨y, u, hy, zs, s', hzs, h, rfl⟩

lemma mapM_nil_ok {f : α → EStateM ε σ β} {ys : List β} :
    (([] : List α).mapM f) s = .ok ys s' ↔ [] = ys ∧ s = s' := by
  rw [List.mapM_nil, pure_ok]

lemma foldlM_cons_ok {f : β → α → EStateM ε σ β} {x : α} {xs : List α} {a b : β} :
    ((x :: xs).foldlM f a) s = .ok b s' ↔
      ∃ c u, f a x s = .ok c u ∧ (xs.foldlM f c) u = .ok b s' := by
  rw [List.foldlM_cons, bind_ok]

lemma foldlM_nil_ok {f : β → α → EStateM ε σ β} {a b : β} :
    (([] : List α).foldlM f a) s = .ok b s' ↔ a = b ∧ s = s' := by
  rw [List.foldlM_nil, pure_ok]

lemma forM_cons_ok {f : α → EStateM ε σ PUnit} {x : α} {xs : List α} {r : PUnit} :
    ((x :: xs).forM f) s = .ok r s' ↔ ∃ u, f x s = .ok ⟨⟩ u ∧ (xs.forM f) u = .ok r s' := by
  show (f x >>= fun _ => xs.forM f) s = .ok r s' ↔ _
  rw [bind_ok]
  constructor
  · rintro ⟨⟨⟩, u, h⟩
    exact ⟨u, h⟩
  · rintro ⟨u, h⟩
    exact ⟨⟨⟩, u, h⟩

lemma forM_nil_ok {f : α → EStateM ε σ PUnit} {r : PUnit} :
    (([] : List α).forM f) s = .ok r s' ↔ s = s' := by
  show (pure PUnit.unit : EStateM ε σ PUnit) s = .ok r s' ↔ _
  rw [pure_ok]
  simp

end Pass

/-- The bundle that a pass ends with if it succeeds on one that could be opened. -/
def Bundle.after {α : Type} (opened : Except Fault Bundle) (pass : Pass α) : Option Bundle :=
  match opened with
  | .error _ => none
  | .ok b => match pass b with
    | .error _ _ => none
    | .ok _ c => some c

lemma Bundle.exists_of_after {α β : Type} {opened : Except Fault Bundle} {pass : Pass α}
    {f : Bundle → β} {y : β} (h : (after opened pass).map f = some y) :
    ∃ b a c, opened = .ok b ∧ pass b = .ok a c ∧ f c = y := by
  obtain ⟨c, hc, rfl⟩ := Option.map_eq_some_iff.1 h
  unfold after at hc
  split at hc
  · cases hc
  · next b =>
    split at hc
    · cases hc
    · next a c' hpass =>
      obtain rfl : c' = c := Option.some.inj hc
      exact ⟨b, a, c', rfl, hpass, rfl⟩

/-- Epochs of four slots, and single units that count. -/
def Network.fourSlots : Network :=
  { Network.minimal with
    slotsPerEpoch := ⟨4, Nat.zero_lt_succ 3⟩
    rootRing := ⟨16, Nat.zero_lt_succ 15⟩
    balanceIncrement := ⟨1, Nat.one_pos⟩ }

namespace Bundle

/-! ### Tallies in their places -/

lemma tallied_ok {b : Bundle} {v : ValidatorIndex} {t : ValidatorTally}
    {tallies : List ValidatorTally} :
    b.tallied v t = .ok tallies ↔ v < b.tallies.length ∧ b.tallies.set v t = tallies := by
  unfold tallied
  split
  · next h => simp [h]
  · next h => simp [h]

lemma setTally_ok {v : ValidatorIndex} {t : ValidatorTally} {b c : Bundle} {u : Unit} :
    setTally v t b = .ok u c ↔
      v < b.tallies.length ∧ { b with tallies := b.tallies.set v t } = c := by
  simp only [setTally, Pass.bind_ok, Pass.get_ok, Pass.fault_ok, Pass.modify_ok, tallied_ok]
  constructor
  · rintro ⟨_, _, ⟨rfl, rfl⟩, _, _, ⟨⟨hv, rfl⟩, rfl⟩, hc⟩
    exact ⟨hv, hc⟩
  · rintro ⟨hv, hc⟩
    exact ⟨_, _, ⟨rfl, rfl⟩, _, _, ⟨⟨hv, rfl⟩, rfl⟩, hc⟩

/-! ### Counts of votes -/

lemma countVote_ok {s : Slot} {b b' : Bundle} {u : Unit} (h : countVote s b = .ok u b') :
    ∃ t, b.blockTallies.get? s = some t ∧ b' = { b with
      blockTallies := b.blockTallies.insert s { t with votesIncluded := t.votesIncluded + 1 } } := by
  simp only [countVote, Pass.bind_ok, Pass.get_ok, Pass.lift_ok, blockTally, Calc.orFail_ok,
    setBlockTally, Pass.modify_ok] at h
  obtain ⟨_, _, ⟨rfl, rfl⟩, t, _, ⟨ht, rfl⟩, rfl⟩ := h
  exact ⟨t, ht, rfl⟩

lemma countNewVote_ok {s : Slot} {b b' : Bundle} {u : Unit} (h : countNewVote s b = .ok u b') :
    ∃ t, b.blockTallies.get? s = some t ∧ b' = { b with
      blockTallies :=
        b.blockTallies.insert s { t with newVotesIncluded := t.newVotesIncluded + 1 } } := by
  simp only [countNewVote, Pass.bind_ok, Pass.get_ok, Pass.lift_ok, blockTally, Calc.orFail_ok,
    setBlockTally, Pass.modify_ok] at h
  obtain ⟨_, _, ⟨rfl, rfl⟩, t, _, ⟨ht, rfl⟩, rfl⟩ := h
  exact ⟨t, ht, rfl⟩

end Bundle

end EpochRewards
