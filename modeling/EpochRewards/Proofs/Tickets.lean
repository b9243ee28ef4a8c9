import EpochRewards.Proofs.Shares

/-!
What becomes of a call while other operations go on.

An insertion stays in line until it is answered, and a wait sees what the promise of its slot is
for as long as nobody else takes the entry. How many promises are settled changes by one at most.
-/

namespace EpochRewards.Cache

variable {α : Type}

/-- An insertion that has been begun. -/
def Inserts (c : Cache α) (t : Ticket) (slot : Slot) (a : α) : Prop :=
  ∃ granted, c.call? t = some (.insert slot a granted)

/-- A wait that sees what the promise of its slot is. -/
def Awaits (c : Cache α) (t : Ticket) (slot : Slot) : Prop :=
  ∃ e, c.entries.get? slot = some e ∧ c.call? t = some (.wait slot e.promise true)

/-- The promise of a slot is settled. -/
def isSettled (c : Cache α) (slot : Slot) : Bool :=
  ((c.entries.get? slot).map (·.promise.isSettled)).getD false

def settledCount (c : Cache α) : Nat := c.entries.values.countP (·.promise.isSettled)

variable {n : Nat} {c : Cache α} {slot s : Slot} {t u : Ticket} {a b : α} {e : Entry α}
  {call : Call α} {calls calls' : List (Ticket × Call α)}

/-! ### Lines of calls -/

lemma lookup_map {f : Ticket × Call α → Ticket × Call α} (hf : ∀ x, (f x).1 = x.1)
    (calls : List (Ticket × Call α)) (t : Ticket) :
    (calls.map f).lookup t = (calls.lookup t).map fun call => (f (t, call)).2 := by
  induction calls with
  | nil => rfl
  | cons x calls ih =>
    obtain ⟨u, call⟩ := x
    have hticket : f (u, call) = (u, (f (u, call)).2) := Prod.ext (hf _) rfl
    rw [List.map_cons, hticket, List.lookup_cons, List.lookup_cons, ih]
    by_cases h : t = u
    · subst h
      rw [beq_self_eq_true]
      rfl
    · rw [beq_false_of_ne h]

/-- A granted share changes nothing but the insertion that it goes to. -/
lemma lookup_grant (h : grant calls = some calls') (t : Ticket) :
    calls'.lookup t = calls.lookup t ∨
      ∃ slot a, calls.lookup t = some (.insert slot a false) ∧
        calls'.lookup t = some (.insert slot a true) := by
  induction calls generalizing calls' with
  | nil => cases h
  | cons x calls ih =>
    unfold grant at h
    split at h
    · next he => cases he
    · next u slot a rest he =>
      cases h
      obtain ⟨rfl, rfl⟩ := List.cons_eq_cons.1 he
      by_cases htu : t = u
      · subst htu
        exact .inr ⟨slot, a, List.lookup_cons_self, List.lookup_cons_self⟩
      · left
        rw [List.lookup_cons, List.lookup_cons, beq_false_of_ne htu]
    · next rest _ he =>
      obtain ⟨rfl, rfl⟩ := List.cons_eq_cons.1 he
      obtain ⟨granted, hg, rfl⟩ := Option.map_eq_some_iff.1 h
      obtain ⟨u, call⟩ := x
      rw [List.lookup_cons, List.lookup_cons]
      by_cases htu : t = u
      · rw [htu, beq_self_eq_true]
        exact .inl rfl
      · rw [beq_false_of_ne htu]
        exact ih hg

lemma mem_calls (hc : c.call? t = some call) : (t, call) ∈ c.calls := by
  rw [call?, List.lookup_eq_some_iff] at hc
  obtain ⟨before, after, hcalls, -⟩ := hc
  rw [hcalls]
  exact List.mem_append_right _ List.mem_cons_self

/-- A call stays as it is while another one is entered. -/
lemma call?_enter_of_some (hc : c.call? t = some call) (other : Call α) :
    (c.enter other).1.call? t = some call := by
  show (c.calls ++ [(c.nextTicket, other)]).lookup t = some call
  rw [List.lookup_append]
  exact congrArg (fun found => Option.or found _) hc

lemma call?_enter_new (h : c.Conserves n) (call : Call α) :
    (c.enter call).1.call? c.nextTicket = some call := by
  have hnone : c.calls.lookup c.nextTicket = none := by
    cases hc : c.calls.lookup c.nextTicket with
    | none => rfl
    | some other => exact absurd (h.before _ (mem_calls hc)) (Nat.lt_irrefl _)
  show (c.calls ++ [(c.nextTicket, call)]).lookup c.nextTicket = some call
  rw [List.lookup_append, hnone, Option.none_or, List.lookup_cons_self]

lemma call?_forget (htu : t ≠ u) : (c.forget u).call? t = c.call? t := by
  show (c.calls.filter (·.1 != u)).lookup t = c.calls.lookup t
  induction c.calls with
  | nil => rfl
  | cons x calls ih =>
    obtain ⟨v, call⟩ := x
    by_cases hv : v = u
    · rw [List.filter_cons_of_neg (by simpa using hv), ih, List.lookup_cons,
        beq_false_of_ne fun h => htu (h.trans hv)]
    · rw [List.filter_cons_of_pos (by simpa using hv), List.lookup_cons, List.lookup_cons, ih]

lemma call?_setEntry (c : Cache α) (slot : Slot) (e : Entry α) (t : Ticket) :
    (c.setEntry slot e).call? t
      = (c.call? t).map fun call => (tell slot e.promise (t, call)).2 :=
  lookup_map (fun x => (tell_keeps slot e.promise x).1) c.calls t

lemma call?_release (c : Cache α) (t : Ticket) :
    c.release.call? t = c.call? t ∨
      ∃ slot a, c.call? t = some (.insert slot a false) ∧
        c.release.call? t = some (.insert slot a true) := by
  unfold release
  split
  · next calls hg => exact lookup_grant hg t
  · exact .inl rfl

/-! ### Insertions -/

lemma Inserts.ne (h : c.Inserts t slot a) (hw : c.Awaits u s) : t ≠ u := by
  rintro rfl
  obtain ⟨granted, hcall⟩ := h
  obtain ⟨e, -, hwait⟩ := hw
  cases hcall.symm.trans hwait

lemma Inserts.release (h : c.Inserts t slot a) : c.release.Inserts t slot a := by
  obtain ⟨granted, hcall⟩ := h
  rcases c.call?_release t with hsame | ⟨s, b, hc, hgranted⟩
  · exact ⟨granted, hsame.trans hcall⟩
  · cases hcall.symm.trans hc
    exact ⟨true, hgranted⟩

lemma Inserts.setEntry (h : c.Inserts t slot a) (s : Slot) (e : Entry α) :
    (c.setEntry s e).Inserts t slot a := by
  obtain ⟨granted, hcall⟩ := h
  refine ⟨granted, ?_⟩
  rw [call?_setEntry, hcall]
  rfl

lemma Inserts.beginWait (h : c.Inserts t slot a) (s : Slot) :
    (c.beginWait s).1.Inserts t slot a := by
  unfold Cache.beginWait
  split
  · obtain ⟨granted, hcall⟩ := h
    exact ⟨granted, call?_enter_of_some hcall _⟩
  · obtain ⟨granted, hcall⟩ := h.setEntry s ⟨.pending, false⟩
    exact ⟨granted, call?_enter_of_some hcall _⟩

lemma Inserts.removeEntry (h : c.Inserts t slot a) (s : Slot) :
    (c.removeEntry s).Inserts t slot a := by
  have hdetached : ({ c with
      entries := c.entries.erase s
      calls := c.calls.map (detach s) } : Cache α).Inserts t slot a := by
    obtain ⟨granted, hcall⟩ := h
    refine ⟨granted, ?_⟩
    show (c.calls.map (detach s)).lookup t = _
    rw [lookup_map fun x => (detach_keeps s x).1, show c.calls.lookup t = _ from hcall]
    rfl
  unfold Cache.removeEntry
  split
  · exact h
  · dsimp only
    split
    · exact hdetached.release
    · exact hdetached

lemma Inserts.forget (h : c.Inserts t slot a) (htu : t ≠ u) : (c.forget u).Inserts t slot a := by
  obtain ⟨granted, hcall⟩ := h
  exact ⟨granted, (call?_forget htu).trans hcall⟩

lemma inserts_beginInsert (h : c.Conserves n) (slot : Slot) (a : α) :
    (c.beginInsert slot a).1.Inserts (c.beginInsert slot a).2 slot a := by
  unfold Cache.beginInsert
  split
  · have hentered (free : Nat) : (({ c with free } : Cache α).enter (.insert slot a true)).1.call?
        c.nextTicket = some (.insert slot a true) := call?_enter_new h _
    exact ⟨true, hentered _⟩
  · exact ⟨false, call?_enter_new h _⟩

/-! ### Waits -/

lemma Awaits.setEntry (h : c.Awaits t s) (slot : Slot) (e : Entry α) :
    (c.setEntry slot e).Awaits t s := by
  obtain ⟨old, hget, hcall⟩ := h
  by_cases hs : s = slot
  · refine ⟨e, (get?_setEntry ..).trans (if_pos hs), ?_⟩
    rw [call?_setEntry, hcall, Option.map_some, tell, if_pos hs]
  · refine ⟨old, (get?_setEntry ..).trans ((if_neg hs).trans hget), ?_⟩
    rw [call?_setEntry, hcall, Option.map_some, tell, if_neg hs]

lemma Awaits.release (h : c.Awaits t s) : c.release.Awaits t s := by
  obtain ⟨e, hget, hcall⟩ := h
  refine ⟨e, by rwa [entries_release], ?_⟩
  rcases c.call?_release t with hsame | ⟨slot, a, hc, -⟩
  · exact hsame.trans hcall
  · cases hcall.symm.trans hc

lemma Awaits.publish (h : c.Awaits t s) (slot : Slot) (a : α) :
    (c.publish slot a).Awaits t s := by
  have hset := h.setEntry slot ⟨.ready a, true⟩
  unfold Cache.publish
  dsimp only
  split
  · exact hset.release
  · exact hset

lemma Awaits.beginInsert (h : c.Awaits t s) (slot : Slot) (a : α) :
    (c.beginInsert slot a).1.Awaits t s := by
  obtain ⟨e, hget, hcall⟩ := h
  refine ⟨e, by rwa [entries_beginInsert], ?_⟩
  unfold Cache.beginInsert
  split
  · have hentered (free : Nat) : (({ c with free } : Cache α).enter (.insert slot a true)).1.call? t
        = some (.wait s e.promise true) := call?_enter_of_some hcall _
    exact hentered _
  · exact call?_enter_of_some hcall _

lemma Awaits.forget (h : c.Awaits t s) (htu : t ≠ u) : (c.forget u).Awaits t s := by
  obtain ⟨e, hget, hcall⟩ := h
  exact ⟨e, hget, (call?_forget htu).trans hcall⟩

lemma awaits_beginWait (h : c.Conserves n) (slot : Slot) :
    (c.beginWait slot).1.Awaits (c.beginWait slot).2 slot := by
  unfold Cache.beginWait
  split
  · next e he => exact ⟨e, he, call?_enter_new h _⟩
  · next hnone =>
    have hset : (c.setEntry slot ⟨.pending, false⟩).Conserves n := by
      refine h.setEntry ?_ nofun
      rw [holds, hnone]
      exact Nat.zero_add n
    exact ⟨⟨.pending, false⟩, (get?_setEntry ..).trans (if_pos rfl), call?_enter_new hset _⟩

/-! ### Open caches -/

@[simp] lemma closed_release (c : Cache α) : c.release.closed = c.closed := by
  unfold release
  split <;> rfl

@[simp] lemma closed_beginInsert (c : Cache α) (slot : Slot) (a : α) :
    (c.beginInsert slot a).1.closed = c.closed := by
  unfold beginInsert
  split <;> rfl

@[simp] lemma closed_beginWait (c : Cache α) (slot : Slot) :
    (c.beginWait slot).1.closed = c.closed := by
  unfold beginWait
  split <;> rfl

@[simp] lemma closed_publish (c : Cache α) (slot : Slot) (a : α) :
    (c.publish slot a).closed = c.closed := by
  unfold publish
  dsimp only
  split
  · exact closed_release _
  · rfl

@[simp] lemma closed_removeEntry (c : Cache α) (slot : Slot) :
    (c.removeEntry slot).closed = c.closed := by
  unfold removeEntry
  split
  · rfl
  · dsimp only
    split
    · exact closed_release _
    · rfl

@[simp] lemma closed_drop (c : Cache α) (t : Ticket) : (c.drop t).closed = c.closed := by
  unfold drop
  split
  · exact closed_release _
  · rfl

@[simp] lemma closed_poll (c : Cache α) (t : Ticket) (branch : Branch) :
    (c.poll t branch).1.closed = c.closed := by
  rcases c.poll_cases t branch with
    hp | ⟨-, hp⟩ | ⟨slot, a, -, hp⟩ | ⟨slot, seen, attached, -, -, hp⟩
  · rw [hp]
  · rw [hp, closed_drop]
  · rw [hp, closed_publish]
    rfl
  · rw [hp, closed_removeEntry]
    rfl

@[simp] lemma closed_clear (c : Cache α) : c.clear.closed = c.closed := by
  have hall (slots : List Slot) (c : Cache α) :
      (slots.foldl removeEntry c).closed = c.closed := by
    induction slots generalizing c with
    | nil => rfl
    | cons slot slots ih => exact (ih _).trans (closed_removeEntry c slot)
  exact hall _ c

/-! ### Settled promises -/

lemma isSettled_markUnavailable (c : Cache α) (slot s : Slot) :
    (c.markUnavailable slot).isSettled s = if s = slot then true else c.isSettled s := by
  rw [isSettled, isSettled, markUnavailable, get?_setEntry]
  by_cases hs : s = slot
  · rw [if_pos hs, if_pos hs]
    rfl
  · rw [if_neg hs, if_neg hs]

lemma isSettled_publish (c : Cache α) (slot s : Slot) (a : α) :
    (c.publish slot a).isSettled s = if s = slot then true else c.isSettled s := by
  rw [isSettled, isSettled, get?_publish]
  by_cases hs : s = slot
  · rw [if_pos hs, if_pos hs]
    rfl
  · rw [if_neg hs, if_neg hs]

lemma isSettled_removeEntry (c : Cache α) (slot s : Slot) :
    (c.removeEntry slot).isSettled s = if s = slot then false else c.isSettled s := by
  rw [isSettled, isSettled, get?_removeEntry]
  by_cases hs : s = slot
  · rw [if_pos hs, if_pos hs]
    rfl
  · rw [if_neg hs, if_neg hs]

lemma isSettled_beginInsert (c : Cache α) (slot s : Slot) (a : α) :
    (c.beginInsert slot a).1.isSettled s = c.isSettled s := by
  rw [isSettled, isSettled, entries_beginInsert]

lemma isSettled_beginWait (c : Cache α) (slot s : Slot) :
    (c.beginWait slot).1.isSettled s = c.isSettled s := by
  unfold beginWait
  split
  · rfl
  · next hnone =>
    show ((((c.setEntry slot ⟨.pending, false⟩).entries.get? s).map _).getD false) = _
    rw [isSettled, get?_setEntry]
    by_cases hs : s = slot
    · rw [if_pos hs, hs, hnone]
      rfl
    · rw [if_neg hs]

lemma isSettled_clear (c : Cache α) (slot : Slot) : c.clear.isSettled slot = false := by
  rw [isSettled, get?_clear]
  rfl

/-- The slots whose promises are settled. -/
def settledSlots (c : Cache α) : List Slot := c.entries.keys.filter c.isSettled

lemma mem_settledSlots : slot ∈ c.settledSlots ↔ c.isSettled slot = true := by
  rw [settledSlots, List.mem_filter, and_iff_right_iff_imp, Ledger.mem_keys_iff, isSettled]
  intro h
  cases hget : c.entries.get? slot with
  | some e => rfl
  | none => rw [hget] at h; cases h

lemma settledCount_clear (c : Cache α) : c.clear.settledCount = 0 := by
  refine List.countP_eq_zero.2 fun e he => ?_
  obtain ⟨slot, hget⟩ := Ledger.get?_of_mem_values he
  rw [get?_clear] at hget
  cases hget

lemma settledCount_setEntry (c : Cache α) (slot : Slot) (e : Entry α) :
    (c.setEntry slot e).settledCount + (c.isSettled slot).toNat
      = c.settledCount + e.promise.isSettled.toNat :=
  c.entries.countP_values_insert slot e (·.promise.isSettled)

/-- A publication settles one promise at most. -/
lemma settledCount_publish_le (c : Cache α) (slot : Slot) (a : α) :
    (c.publish slot a).settledCount ≤ c.settledCount + 1 := by
  have hset := c.settledCount_setEntry slot ⟨.ready a, true⟩
  have hone : (⟨.ready a, true⟩ : Entry α).promise.isSettled.toNat = 1 := rfl
  have hentries : (c.publish slot a).entries = (c.setEntry slot ⟨.ready a, true⟩).entries := by
    unfold publish
    dsimp only
    split
    · exact entries_release _
    · rfl
  rw [settledCount, hentries]
  show (c.setEntry slot ⟨.ready a, true⟩).settledCount ≤ c.settledCount + 1
  omega

lemma settledCount_markUnavailable_le (c : Cache α) (slot : Slot) :
    (c.markUnavailable slot).settledCount ≤ c.settledCount + 1 := by
  have hset := c.settledCount_setEntry slot ⟨.unavailable, c.holds slot⟩
  have hone : (⟨.unavailable, c.holds slot⟩ : Entry α).promise.isSettled.toNat = 1 := rfl
  show (c.setEntry slot ⟨.unavailable, c.holds slot⟩).settledCount ≤ c.settledCount + 1
  omega

lemma settledCount_beginInsert (c : Cache α) (slot : Slot) (a : α) :
    (c.beginInsert slot a).1.settledCount = c.settledCount := by
  rw [settledCount, settledCount, entries_beginInsert]

lemma settledCount_beginWait (c : Cache α) (slot : Slot) :
    (c.beginWait slot).1.settledCount = c.settledCount := by
  unfold beginWait
  split
  · rfl
  · next hnone =>
    have hset := c.settledCount_setEntry slot ⟨.pending, false⟩
    have hnew : (c.isSettled slot).toNat = 0 := by rw [isSettled, hnone]; rfl
    have hpending : (⟨.pending, false⟩ : Entry α).promise.isSettled.toNat = 0 := rfl
    show (c.setEntry slot ⟨.pending, false⟩).settledCount = c.settledCount
    omega

lemma settledCount_removeEntry (c : Cache α) (slot : Slot) :
    (c.removeEntry slot).settledCount + (c.isSettled slot).toNat = c.settledCount := by
  have hcount := c.entries.countP_values_erase slot (·.promise.isSettled)
  unfold removeEntry
  split
  · next hnone =>
    rw [isSettled, hnone]
    rfl
  · dsimp only
    split
    · rw [settledCount, entries_release]
      exact hcount
    · exact hcount

end EpochRewards.Cache
