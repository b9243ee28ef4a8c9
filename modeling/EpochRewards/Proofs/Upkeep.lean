import EpochRewards.Proofs.Contracts

/-!
Invariants of bundles that passes uphold.

Only passes that succeed matter here. The rules follow the shape of a pass, so an invariant is
proved of the changes of single figures and carried up to the pass from there.
-/

namespace EpochRewards.Pass

variable {α β : Type} {I : Bundle → Prop} {Q R : α → Prop}

/-- From a bundle with `I` the pass, if it succeeds, ends in one with `I` and in a result as `Q`
says. -/
def Upholds (I : Bundle → Prop) (Q : α → Prop) (m : Pass α) : Prop :=
  ∀ ⦃b a c⦄, I b → m b = .ok a c → I c ∧ Q a

namespace Upholds

lemma pure {a : α} (h : Q a) : Upholds I Q (Pure.pure a) := by
  intro b a' c hb hc
  obtain ⟨rfl, rfl⟩ := pure_ok.1 hc
  exact ⟨hb, h⟩

lemma bind {m : Pass α} {f : α → Pass β} {Q : β → Prop} (hm : Upholds I R m)
    (hf : ∀ a, R a → Upholds I Q (f a)) : Upholds I Q (m >>= f) := by
  intro b y d hb hd
  obtain ⟨a, c, hc, hd⟩ := bind_ok.1 hd
  obtain ⟨hic, ha⟩ := hm hb hc
  exact hf a ha hic hd

lemma get_bind {f : Bundle → Pass β} {Q : β → Prop} (hf : ∀ b, I b → Upholds I Q (f b)) :
    Upholds I Q (get >>= f) := fun b _ _ hb hc => hf b hb hb hc

lemma lift_bind {x : Calc α} {f : α → Pass β} {Q : β → Prop}
    (hf : ∀ a, x = .ok a → Upholds I Q (f a)) : Upholds I Q (liftM x >>= f) := by
  intro b y c hb hc
  obtain ⟨a, _, hx, hc⟩ := bind_ok.1 hc
  obtain ⟨ha, rfl⟩ := lift_ok.1 hx
  exact hf a ha hb hc

lemma fault_bind {x : Except Fault α} {f : α → Pass β} {Q : β → Prop}
    (hf : ∀ a, x = .ok a → Upholds I Q (f a)) : Upholds I Q (liftM x >>= f) := by
  intro b y c hb hc
  obtain ⟨a, _, hx, hc⟩ := bind_ok.1 hc
  obtain ⟨ha, rfl⟩ := fault_ok.1 hx
  exact hf a ha hb hc

lemma modify {f : Bundle → Bundle} (hf : ∀ b, I b → I (f b)) :
    Upholds I (fun _ => True) (modify f) := by
  intro b u c hb hc
  rw [← modify_ok.1 hc]
  exact ⟨hf b hb, trivial⟩

lemma forM {f : α → Pass PUnit} {xs : List α}
    (hf : ∀ x ∈ xs, Upholds I (fun _ => True) (f x)) :
    Upholds I (fun _ => True) (xs.forM f) := by
  induction xs with
  | nil => exact pure trivial
  | cons x xs ih =>
    exact (hf x List.mem_cons_self).bind fun _ _ =>
      ih fun y hy => hf y (List.mem_cons_of_mem _ hy)

lemma foldlM {f : β → α → Pass β} {xs : List α} {y : β}
    (hf : ∀ x ∈ xs, ∀ y, Upholds I (fun _ => True) (f y x)) :
    Upholds I (fun _ => True) (xs.foldlM f y) := by
  induction xs generalizing y with
  | nil => exact pure trivial
  | cons x xs ih =>
    rw [List.foldlM_cons]
    exact (hf x List.mem_cons_self y).bind fun _ _ =>
      ih fun z hz => hf z (List.mem_cons_of_mem _ hz)

lemma mapM {f : α → Pass β} {Q : β → Prop} {xs : List α} (hf : ∀ x ∈ xs, Upholds I Q (f x)) :
    Upholds I (fun ys => ∀ y ∈ ys, Q y) (xs.mapM f) := by
  induction xs with
  | nil => exact pure fun _ hy => nomatch hy
  | cons x xs ih =>
    rw [List.mapM_cons]
    refine (hf x List.mem_cons_self).bind fun y hy =>
      (ih fun z hz => hf z (List.mem_cons_of_mem _ hz)).bind fun ys hys => pure fun z hz => ?_
    rcases List.mem_cons.1 hz with rfl | hz
    · exact hy
    · exact hys z hz

end Upholds

end EpochRewards.Pass
