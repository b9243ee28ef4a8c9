import EpochRewards.Proofs.Handover

/-!
What a cache tells of its slots.

If everything that is put into a cache has a property then so has everything that it shows,
however the operations of the parties follow on one another.
-/

namespace EpochRewards.Cache

variable {α : Type}

/-- A call of the one insertion or the one wait there is, that shows nothing but what has the
property. -/
def Vouched (P : Slot → Promise α → Prop) (ins : Option Ticket) (await : Option Await) :
    Ticket × Call α → Prop
  | (t, .insert slot a _) => P slot (.ready a) ∧ ins = some t
  | (t, .wait slot seen attached) => P slot seen ∧ attached = true ∧ await = some ⟨t, slot⟩

/-- An open cache whose promises all have a property, with at most one insertion and one wait. -/
structure Vouches (P : Slot → Promise α → Prop) (ins : Option Ticket) (await : Option Await)
    (c : Cache α) : Prop where
  isOpen : c.closed = false
  entries : ∀ slot e, c.entries.get? slot = some e → P slot e.promise
  calls : ∀ x ∈ c.calls, Vouched P ins await x
  inserting : ∀ t, ins = some t → t < c.nextTicket
  awaiting : ∀ w, await = some w → w.ticket < c.nextTicket
  apart : ∀ t w, ins = some t → await = some w → t ≠ w.ticket

variable {P : Slot → Promise α → Prop} {ins : Option Ticket} {await : Option Await}
  {c c' : Cache α} {slot : Slot} {t : Ticket} {a : α} {branch : Branch} {answer : Answer α}

lemma vouches_ofCapacity (capacity : Nat) :
    Vouches P none none (ofCapacity capacity : Cache α) where
  isOpen := rfl
  entries slot e he := by cases he
  calls x hx := by cases hx
  inserting := nofun
  awaiting := nofun
  apart := nofun

/-! ### Entries and shares -/

lemma vouched_tell {p : Promise α} {x : Ticket × Call α} (hp : P slot p)
    (h : Vouched P ins await x) : Vouched P ins await (tell slot p x) := by
  obtain ⟨t, call⟩ := x
  cases call with
  | insert => exact h
  | wait s seen attached =>
    obtain ⟨hseen, rfl, hw⟩ := h
    refine ⟨?_, rfl, hw⟩
    split
    · next hs => rwa [hs]
    · exact hseen

lemma vouches_setEntry (h : Vouches P ins await c) {e : Entry α} (hp : P slot e.promise) :
    Vouches P ins await (c.setEntry slot e) where
  isOpen := h.isOpen
  entries s e' he := by
    have hget : (c.setEntry slot e).entries.get? s
        = if s = slot then some e else c.entries.get? s := Ledger.get?_insert ..
    rw [hget] at he
    split at he
    · next hs =>
      cases he
      rwa [hs]
    · exact h.entries s e' he
  calls x hx := by
    obtain ⟨y, hy, rfl⟩ := List.mem_map.1 hx
    exact vouched_tell hp (h.calls y hy)
  inserting := h.inserting
  awaiting := h.awaiting
  apart := h.apart

/-- A share is granted to an insertion that is there. -/
lemma mem_grant {calls calls' : List (Ticket × Call α)} {x : Ticket × Call α}
    (hg : grant calls = some calls') (hx : x ∈ calls') :
    x ∈ calls ∨ ∃ t slot a, (t, .insert slot a false) ∈ calls ∧ x = (t, .insert slot a true) := by
  induction calls generalizing calls' with
  | nil => cases hg
  | cons y calls ih =>
    unfold grant at hg
    split at hg
    · cases hg
    · next t slot a rest he =>
      cases hg
      obtain ⟨rfl, rfl⟩ := List.cons_eq_cons.1 he
      rcases List.mem_cons.1 hx with rfl | hx
      · exact .inr ⟨t, slot, a, List.mem_cons_self, rfl⟩
      · exact .inl (List.mem_cons_of_mem _ hx)
    · next rest _ he =>
      obtain ⟨rfl, rfl⟩ := List.cons_eq_cons.1 he
      obtain ⟨granted, hr, rfl⟩ := Option.map_eq_some_iff.1 hg
      rcases List.mem_cons.1 hx with rfl | hx
      · exact .inl List.mem_cons_self
      · rcases ih hr hx with hx | ⟨t, slot, a, hm, rfl⟩
        · exact .inl (List.mem_cons_of_mem _ hx)
        · exact .inr ⟨t, slot, a, List.mem_cons_of_mem _ hm, rfl⟩

lemma vouches_release (h : Vouches P ins await c) : Vouches P ins await c.release := by
  unfold release
  split
  · next calls hg =>
    refine ⟨h.isOpen, h.entries, fun x hx => ?_, h.inserting, h.awaiting, h.apart⟩
    rcases mem_grant hg hx with hx | ⟨t, slot, a, hm, rfl⟩
    · exact h.calls x hx
    · have hcall := h.calls _ hm
      exact hcall
  · exact ⟨h.isOpen, h.entries, h.calls, h.inserting, h.awaiting, h.apart⟩

lemma vouches_markUnavailable (h : Vouches P ins await c) (hp : P slot .unavailable) :
    Vouches P ins await (c.markUnavailable slot) := vouches_setEntry h hp

lemma vouches_publish (h : Vouches P ins await c) (hp : P slot (.ready a)) :
    Vouches P ins await (c.publish slot a) := by
  have hset : Vouches P ins await (c.setEntry slot ⟨.ready a, true⟩) := vouches_setEntry h hp
  unfold publish
  dsimp only
  split
  · exact vouches_release hset
  · exact hset

/-- With nobody waiting an entry can go. -/
lemma vouches_removeEntry (h : Vouches P ins none c) (slot : Slot) :
    Vouches P ins none (c.removeEntry slot) := by
  -- A wait that is detached would break the invariant, hence nobody may wait.
  unfold removeEntry
  split
  · exact h
  · next e he =>
    have hrest : Vouches P ins none
        { c with
          entries := c.entries.erase slot
          calls := c.calls.map (detach slot) } := by
      refine ⟨h.isOpen, fun s e' hs => ?_, fun x hx => ?_, h.inserting, h.awaiting, h.apart⟩
      · rw [Ledger.get?_erase] at hs
        split at hs
        · cases hs
        · exact h.entries s e' hs
      · obtain ⟨⟨t, call⟩, hy, rfl⟩ := List.mem_map.1 hx
        have hcall := h.calls _ hy
        cases call with
        | insert => exact hcall
        | wait s seen attached => exact nomatch hcall.2.2
    dsimp only
    split
    · exact vouches_release hrest
    · exact hrest

/-! ### Calls -/

lemma vouches_beginInsert (h : Vouches P none await c) (hp : P slot (.ready a)) :
    Vouches P (some (c.beginInsert slot a).2) await (c.beginInsert slot a).1 := by
  have hentered (granted : Bool) (n : Nat) : Vouches P (some c.nextTicket) await
      ({ c with free := n }.enter (.insert slot a granted)).1 := by
    refine ⟨h.isOpen, h.entries, fun x hx => ?_, fun t ht => ?_, fun w hw => ?_, fun t w ht hw => ?_⟩
    · rcases List.mem_append.1 hx with hx | hx
      · obtain ⟨t, call⟩ := x
        have hcall := h.calls _ hx
        cases call with
        | insert => exact nomatch hcall.2
        | wait => exact hcall
      · rw [List.mem_singleton.1 hx]
        exact ⟨hp, rfl⟩
    · cases ht
      exact Nat.lt_succ_self _
    · exact Nat.lt_succ_of_lt (h.awaiting w hw)
    · cases ht
      exact Nat.ne_of_gt (h.awaiting w hw)
  unfold beginInsert
  split
  · exact hentered true _
  · exact hentered false _

lemma vouches_beginWait (h : Vouches P ins none c) (hp : P slot .pending) :
    Vouches P ins (some ⟨(c.beginWait slot).2, slot⟩) (c.beginWait slot).1 := by
  have hentered {c : Cache α} (h : Vouches P ins none c) {seen : Promise α} (hs : P slot seen) :
      Vouches P ins (some ⟨c.nextTicket, slot⟩) (c.enter (.wait slot seen true)).1 := by
    refine ⟨h.isOpen, h.entries, fun x hx => ?_, fun t ht => ?_, fun w hw => ?_, fun t w ht hw => ?_⟩
    · rcases List.mem_append.1 hx with hx | hx
      · obtain ⟨t, call⟩ := x
        have hcall := h.calls _ hx
        cases call with
        | insert => exact hcall
        | wait => exact nomatch hcall.2.2
      · rw [List.mem_singleton.1 hx]
        exact ⟨hs, rfl, rfl⟩
    · exact Nat.lt_succ_of_lt (h.inserting t ht)
    · cases hw
      exact Nat.lt_succ_self _
    · cases hw
      exact Nat.ne_of_lt (h.inserting t ht)
  unfold beginWait
  split
  · next e he => exact hentered h (h.entries slot e he)
  · exact hentered (vouches_setEntry (e := ⟨.pending, false⟩) h hp) hp

lemma vouches_forget_insertion (h : Vouches P (some t) await c) :
    Vouches P none await (c.forget t) := by
  refine ⟨h.isOpen, h.entries, fun x hx => ?_, nofun, h.awaiting, nofun⟩
  obtain ⟨hmem, hne⟩ := List.mem_filter.1 hx
  obtain ⟨u, call⟩ := x
  have hcall := h.calls _ hmem
  cases call with
  | insert =>
    obtain ⟨-, hu⟩ := hcall
    cases hu
    exact absurd rfl (bne_iff_ne.1 hne)
  | wait => exact hcall

lemma vouches_forget_await {w : Await} (h : Vouches P ins (some w) c) :
    Vouches P ins none (c.forget w.ticket) := by
  refine ⟨h.isOpen, h.entries, fun x hx => ?_, h.inserting, nofun, nofun⟩
  obtain ⟨hmem, hne⟩ := List.mem_filter.1 hx
  obtain ⟨u, call⟩ := x
  have hcall := h.calls _ hmem
  cases call with
  | insert => exact hcall
  | wait =>
    obtain ⟨-, -, hu⟩ := hcall
    cases hu
    exact absurd rfl (bne_iff_ne.1 hne)

lemma vouched_call {call : Call α} (h : Vouches P ins await c) (hc : c.call? t = some call) :
    Vouched P ins await (t, call) := by
  rw [call?, List.lookup_eq_some_iff] at hc
  obtain ⟨before, after, hcalls, -⟩ := hc
  refine h.calls _ ?_
  rw [hcalls]
  exact List.mem_append_right _ List.mem_cons_self

/-! ### Answers -/

/-- An insertion is answered by what it is for. -/
lemma vouches_poll_insertion (h : Vouches P (some t) await c)
    (hp : c.poll t branch = (c', some answer)) :
    answer = .inserted ∧ Vouches P none await c' := by
  have hopen := h.isOpen
  unfold poll at hp
  split at hp
  · cases hp
  · next slot a granted hcall =>
    obtain ⟨hready, -⟩ := vouched_call h hcall
    cases granted with
    | false => simp [hopen] at hp
    | true =>
      simp only [hopen, Bool.false_and, Bool.false_eq_true, if_false, if_true] at hp
      cases hp
      exact ⟨rfl, vouches_publish (vouches_forget_insertion h) hready⟩
  · next slot seen attached hcall =>
    obtain ⟨-, -, hw⟩ := vouched_call h hcall
    exact absurd rfl (h.apart t _ rfl hw)

/-- A wait is answered by a promise of its slot. -/
lemma vouches_poll_await {w : Await} (h : Vouches P ins (some w) c)
    (hp : c.poll w.ticket branch = (c', some answer)) :
    (∃ p, P w.slot p ∧ p.isSettled = true ∧ answer = delivery w.slot p) ∧
      Vouches P ins none c' := by
  have hopen := h.isOpen
  unfold poll at hp
  split at hp
  · cases hp
  · next slot a granted hcall =>
    obtain ⟨-, hi⟩ := vouched_call h hcall
    exact absurd rfl (h.apart _ w hi rfl)
  · next slot seen attached hcall =>
    obtain ⟨hseen, rfl, hw⟩ := vouched_call h hcall
    have hslot : w.slot = slot := congrArg Await.slot (Option.some.inj hw)
    subst hslot
    cases hs : seen.isSettled with
    | false => simp [hopen, hs] at hp
    | true =>
      simp only [hopen, hs, Bool.not_false, Bool.true_or, Bool.and_self, if_true] at hp
      cases hp
      exact ⟨⟨seen, hseen, hs, rfl⟩, vouches_removeEntry (vouches_forget_await h) w.slot⟩

end EpochRewards.Cache
