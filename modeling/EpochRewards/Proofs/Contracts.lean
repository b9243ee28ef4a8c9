import EpochRewards.Proofs.Pass

/-!
Contracts: what computations and passes end with, failures included.

The rules follow the shape of a program, so the contract of a pass is put together from those of
its steps. A loop carries an invariant about the elements that it is done with.
-/

namespace EpochRewards

/-! ### Computations -/

namespace Calc

variable {ε α β : Type} {E F : ε → Prop}

/-- The computation fails only as `E` allows. -/
def Errs (E : ε → Prop) (x : Except ε α) : Prop := ∀ e, x = .error e → E e

namespace Errs

lemma ok (a : α) : Errs E (.ok a) := nofun

lemma mono {x : Except ε α} (h : Errs E x) (hEF : ∀ e, E e → F e) : Errs F x :=
  fun e he => hEF e (h e he)

lemma bind {x : Except ε α} {f : α → Except ε β} (hx : Errs E x)
    (hf : ∀ a, x = .ok a → Errs E (f a)) : Errs E (x >>= f) := by
  cases x with
  | error e => exact fun d hd => hx d (congrArg Except.error (Except.error.inj hd))
  | ok a => exact hf a rfl

lemma map {x : Except ε α} {f : α → β} (hx : Errs E x) : Errs E (f <$> x) := by
  cases x with
  | error e => exact fun d hd => hx d (congrArg Except.error (Except.error.inj hd))
  | ok a => exact ok (f a)

lemma orFail {x : Option α} {E : Failure ε → Prop} {e : ε} (h : x = none → E (.error e)) :
    Errs E (x.orFail e) := by
  cases x with
  | none =>
    rintro _ ⟨⟩
    exact h rfl
  | some a => exact ok a

lemma fault {x : Except Fault α} {E : Failure ε → Prop} (h : Errs (fun f => E (.fault f)) x) :
    Errs E (liftM x) := by
  cases x with
  | error f =>
    rintro _ ⟨⟩
    exact h f rfl
  | ok a => exact ok a

/-- Arithmetic whose result is known. -/
lemma known_bind {x : Except Fault α} {a : α} {f : α → Except (Failure ε) β}
    {E : Failure ε → Prop} (hx : x = .ok a) (h : Errs E (f a)) :
    Errs E ((liftM x : Except (Failure ε) α) >>= f) := by
  rw [hx]
  exact h

lemma mapM {f : α → Except ε β} {xs : List α} (h : ∀ x ∈ xs, Errs E (f x)) :
    Errs E (xs.mapM f) := by
  induction xs with
  | nil => exact ok []
  | cons x xs ih =>
    rw [List.mapM_cons]
    exact (h x List.mem_cons_self).bind fun y _ =>
      (ih fun z hz => h z (List.mem_cons_of_mem _ hz)).bind fun ys _ => ok (y :: ys)

/-- The invariant is about the elements done and the value that they have led to. -/
lemma foldlM {J : List α → β → Prop} {f : β → α → Except ε β} {xs : List α} {b : β}
    (hstart : J [] b) (hstep : ∀ done x, done ++ [x] <+: xs → ∀ b, J done b →
      Errs E (f b x) ∧ ∀ c, f b x = .ok c → J (done ++ [x]) c) :
    Errs E (xs.foldlM f b) ∧ ∀ c, xs.foldlM f b = .ok c → J xs c := by
  suffices hrest : ∀ rest done b, done ++ rest = xs → J done b →
      Errs E (rest.foldlM f b) ∧ ∀ c, rest.foldlM f b = .ok c → J xs c from
    hrest xs [] b rfl hstart
  intro rest
  induction rest with
  | nil =>
    intro done b hdone hJ
    rw [List.append_nil] at hdone
    refine ⟨ok b, fun c hc => ?_⟩
    rw [List.foldlM_nil, pure_ok] at hc
    rwa [← hdone, ← hc]
  | cons x rest ih =>
    intro done b hdone hJ
    have hsplit : done ++ [x] ++ rest = xs := by rw [List.append_assoc]; exact hdone
    obtain ⟨herr, hok⟩ := hstep done x ⟨rest, hsplit⟩ b hJ
    rw [List.foldlM_cons]
    refine ⟨herr.bind fun c hc => (ih _ c hsplit (hok c hc)).1, fun d hd => ?_⟩
    obtain ⟨c, hc, hd⟩ := bind_ok.1 hd
    exact (ih _ c hsplit (hok c hc)).2 d hd

end Errs

end Calc

/-! ### Passes -/

namespace Pass

variable {ε σ α β : Type} {s : σ} {E : ε → σ → Prop}

/-- A pass ends with a result and a state as `Q` says, or fails as `E` allows. -/
def Meets (E : ε → σ → Prop) (Q : α → σ → Prop) : EStateM.Result ε σ α → Prop
  | .ok a t => Q a t
  | .error e t => E e t

namespace Meets

variable {Q R : α → σ → Prop}

lemma mono {r : EStateM.Result ε σ α} (h : Meets E R r)
    (hQ : ∀ a t, r = .ok a t → R a t → Q a t) : Meets E Q r := by
  cases r with
  | ok a t => exact hQ a t rfl h
  | error e t => exact h

lemma imp {F : ε → σ → Prop} {r : EStateM.Result ε σ α} (h : Meets E R r)
    (hE : ∀ e t, E e t → F e t) (hQ : ∀ a t, R a t → Q a t) : Meets F Q r := by
  cases r with
  | ok a t => exact hQ a t h
  | error e t => exact hE e t h

lemma pure {a : α} (h : Q a s) : Meets E Q ((Pure.pure a : EStateM ε σ α) s) := h

lemma bind {m : EStateM ε σ α} {f : α → EStateM ε σ β} {Q : β → σ → Prop}
    (hm : Meets E R (m s)) (hf : ∀ a t, m s = .ok a t → R a t → Meets E Q (f a t)) :
    Meets E Q ((m >>= f) s) := by
  show Meets E Q (m.bind f s)
  unfold EStateM.bind
  cases h : m s with
  | ok a t =>
    rw [h] at hm
    exact hf a t h hm
  | error e t =>
    rw [h] at hm
    exact hm

lemma get_bind {f : σ → EStateM ε σ β} {Q : β → σ → Prop} (h : Meets E Q (f s s)) :
    Meets E Q ((get >>= f) s) := h

lemma lift_bind {x : Except ε α} {f : α → EStateM ε σ β} {Q : β → σ → Prop}
    (hx : Calc.Errs (E · s) x) (hf : ∀ a, x = .ok a → Meets E Q (f a s)) :
    Meets E Q (((liftM x : EStateM ε σ α) >>= f) s) := by
  cases x with
  | ok a => exact hf a rfl
  | error e => exact hx e rfl

lemma fault_bind {E : Failure ε → σ → Prop} {x : Except Fault α}
    {f : α → EStateM (Failure ε) σ β} {Q : β → σ → Prop}
    (hx : Calc.Errs (fun f => E (.fault f) s) x) (hf : ∀ a, x = .ok a → Meets E Q (f a s)) :
    Meets E Q (((liftM x : EStateM (Failure ε) σ α) >>= f) s) := by
  cases x with
  | ok a => exact hf a rfl
  | error e => exact hx e rfl

/-- Arithmetic whose result is known. -/
lemma known_bind {E : Failure ε → σ → Prop} {x : Except Fault α} {a : α}
    {f : α → EStateM (Failure ε) σ β} {Q : β → σ → Prop} (hx : x = .ok a)
    (h : Meets E Q (f a s)) : Meets E Q (((liftM x : EStateM (Failure ε) σ α) >>= f) s) := by
  rw [hx]
  exact h

lemma modify_bind {g : σ → σ} {f : PUnit → EStateM ε σ β} {Q : β → σ → Prop}
    (h : Meets E Q (f ⟨⟩ (g s))) : Meets E Q (((modify g : EStateM ε σ PUnit) >>= f) s) := h

lemma modify {g : σ → σ} {Q : PUnit → σ → Prop} (h : Q ⟨⟩ (g s)) :
    Meets E Q ((modify g : EStateM ε σ PUnit) s) := h

/-! ### Loops -/

/-- The invariant is about the elements done, the value that they have led to and the state. -/
lemma foldlM {J : List α → β → σ → Prop} {f : β → α → EStateM ε σ β} {xs : List α} {b : β}
    (hstart : J [] b s) (hstep : ∀ done x, done ++ [x] <+: xs → ∀ b t, J done b t →
      Meets E (J (done ++ [x])) (f b x t)) :
    Meets E (J xs) (xs.foldlM f b s) := by
  suffices hrest : ∀ rest done b t, done ++ rest = xs → J done b t →
      Meets E (J xs) (rest.foldlM f b t) from hrest xs [] b s rfl hstart
  intro rest
  induction rest with
  | nil =>
    intro done b t hdone hJ
    rw [List.append_nil] at hdone
    rw [← hdone]
    exact hJ
  | cons x rest ih =>
    intro done b t hdone hJ
    have hsplit : done ++ [x] ++ rest = xs := by rw [List.append_assoc]; exact hdone
    rw [List.foldlM_cons]
    exact (hstep done x ⟨rest, hsplit⟩ b t hJ).bind fun c u _ hc => ih _ c u hsplit hc

lemma forM {J : List α → σ → Prop} {f : α → EStateM ε σ PUnit} {xs : List α} (hstart : J [] s)
    (hstep : ∀ done x, done ++ [x] <+: xs → ∀ t, J done t →
      Meets E (fun _ => J (done ++ [x])) (f x t)) :
    Meets E (fun _ => J xs) (xs.forM f s) := by
  suffices hrest : ∀ rest done t, done ++ rest = xs → J done t →
      Meets E (fun _ => J xs) (rest.forM f t) from hrest xs [] s rfl hstart
  intro rest
  induction rest with
  | nil =>
    intro done t hdone hJ
    rw [List.append_nil] at hdone
    rw [← hdone]
    exact hJ
  | cons x rest ih =>
    intro done t hdone hJ
    have hsplit : done ++ [x] ++ rest = xs := by rw [List.append_assoc]; exact hdone
    exact (hstep done x ⟨rest, hsplit⟩ t hJ).bind fun _ u _ hu => ih _ u hsplit hu

variable {I : σ → Prop} {xs : List α}

lemma forM_mem {f : α → EStateM ε σ PUnit} (hstart : I s)
    (hstep : ∀ x ∈ xs, ∀ t, I t → Meets E (fun _ => I) (f x t)) :
    Meets E (fun _ => I) (xs.forM f s) :=
  forM (J := fun _ => I) hstart fun _ x hx t ht =>
    hstep x (hx.subset (by simp)) t ht

lemma foldlM_mem {J : β → σ → Prop} {f : β → α → EStateM ε σ β} {b : β} (hstart : J b s)
    (hstep : ∀ x ∈ xs, ∀ b t, J b t → Meets E J (f b x t)) :
    Meets E J (xs.foldlM f b s) :=
  foldlM (J := fun _ => J) hstart fun _ x hx b t ht =>
    hstep x (hx.subset (by simp)) b t ht

/-- A step is taken from where a run over the elements before it has ended. -/
lemma foldlM_run {f : β → α → EStateM ε σ β} {b : β}
    (hstep : ∀ done x, done ++ [x] <+: xs → ∀ c t, done.foldlM f b s = .ok c t →
      Meets E (fun _ _ => True) (f c x t)) :
    Meets E (fun c t => xs.foldlM f b s = .ok c t) (xs.foldlM f b s) := by
  refine foldlM (J := fun done c t => done.foldlM f b s = .ok c t) rfl
    fun done x hx c t ht => (hstep done x hx c t ht).mono fun d u hd _ => ?_
  rw [List.foldlM_append, bind_ok]
  exact ⟨c, t, ht, by rw [foldlM_cons_ok]; exact ⟨d, u, hd, rfl⟩⟩

lemma mapM_mem {f : α → EStateM ε σ β} (hstart : I s)
    (hstep : ∀ x ∈ xs, ∀ t, I t → Meets E (fun _ => I) (f x t)) :
    Meets E (fun _ => I) (xs.mapM f s) := by
  induction xs generalizing s with
  | nil => exact hstart
  | cons x xs ih =>
    rw [List.mapM_cons]
    exact (hstep x List.mem_cons_self s hstart).bind fun y t _ ht =>
      (ih ht fun z hz => hstep z (List.mem_cons_of_mem _ hz)).bind fun ys u _ hu => hu

end Meets

end Pass

end EpochRewards
