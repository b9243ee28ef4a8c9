import EpochRewards.Cache
import EpochRewards.Proofs.Ledgers
import Mathlib.Data.List.Basic
import Mathlib.Tactic.Common

/-!
Handing values over through a cache.

One party settles slots, with an insertion or by marking them unavailable, and another one takes
them in the same order. Between two of their operations the cache is determined by the slots
that are settled and not yet taken and by the calls that the parties wait for.
-/

namespace EpochRewards.Cache

variable {α : Type}

/-- The slots that are settled and not yet taken, `none` for one that is unavailable. -/
abbrev Ready (α : Type) := List (Slot × Option α)

/-- An insertion that has been begun. -/
structure Insertion (α : Type) where
  ticket : Ticket
  slot : Slot
  value : α
  granted : Bool

/-- A wait that has been begun. -/
structure Await where
  ticket : Ticket
  slot : Slot

/-- The entry of a settled slot. -/
def settled : Option α → Entry α
  | some a => ⟨.ready a, true⟩
  | none => ⟨.unavailable, false⟩

def insertCalls (ins : Option (Insertion α)) : List (Ticket × Call α) :=
  ins.toList.map fun i => (i.ticket, .insert i.slot i.value i.granted)

/-- What is seen of the promise of a slot. -/
def promiseOf (ready : Ready α) (slot : Slot) : Promise α :=
  ((ready.lookup slot).map fun x => (settled x).promise).getD .pending

def waitCalls (ready : Ready α) (await : Option Await) : List (Ticket × Call α) :=
  await.toList.map fun w => (w.ticket, .wait w.slot (promiseOf ready w.slot) true)

/-- The entry of a slot: settled, or pending for who waits. -/
def entryOf (ready : Ready α) (await : Option Await) (slot : Slot) : Option (Entry α) :=
  ((ready.lookup slot).map settled).or
    (if await.map (·.slot) = some slot then some ⟨.pending, false⟩ else none)

/-- The cache between the parties. -/
structure Relays (capacity : Nat) (ready : Ready α) (ins : Option (Insertion α))
    (await : Option Await) (c : Cache α) : Prop where
  isOpen : c.closed = false
  entries : ∀ slot, c.entries.get? slot = entryOf ready await slot
  calls : c.calls = insertCalls ins ++ waitCalls ready await ∨
    c.calls = waitCalls ready await ++ insertCalls ins
  before : ∀ x ∈ c.calls, x.1 < c.nextTicket
  apart : ∀ i w, ins = some i → await = some w → i.ticket ≠ w.ticket
  shares : c.free + ready.countP (·.2.isSome) + (ins.any (·.granted)).toNat = capacity
  /-- an insertion only waits for a share if there is none -/
  starved : ∀ i, ins = some i → i.granted = false → c.free = 0

variable {capacity : Nat} {ready : Ready α} {ins : Option (Insertion α)} {await : Option Await}
  {c c' : Cache α} {slot : Slot} {t : Ticket} {a : α}

lemma relays_ofCapacity : Relays capacity [] none none (ofCapacity capacity : Cache α) where
  isOpen := rfl
  entries _ := rfl
  calls := .inl rfl
  before x hx := by simp [ofCapacity] at hx
  apart := nofun
  shares := rfl
  starved := nofun

/-! ### Slots -/

lemma lookup_append_singleton (ready : Ready α) (slot s : Slot) (x : Option α) :
    (ready ++ [(slot, x)]).lookup s
      = (ready.lookup s).or (if s = slot then some x else none) := by
  induction ready with
  | nil =>
    rw [List.nil_append, List.lookup_cons]
    by_cases h : s = slot
    · simp [h]
    · have hb : (s == slot) = false := beq_false_of_ne h
      rw [hb, if_neg h]
      rfl
  | cons y ready ih =>
    obtain ⟨r, y⟩ := y
    rw [List.cons_append, List.lookup_cons, List.lookup_cons, ih]
    split <;> rfl

lemma lookup_eq_none_iff {ready : Ready α} {slot : Slot} :
    ready.lookup slot = none ↔ slot ∉ ready.map (·.1) := by
  induction ready with
  | nil => simp
  | cons y ready ih =>
    obtain ⟨r, y⟩ := y
    rw [List.lookup_cons]
    by_cases h : slot = r
    · simp [h]
    · have hb : (slot == r) = false := beq_false_of_ne h
      rw [hb, List.map_cons, List.mem_cons, not_or]
      exact ⟨fun hn => ⟨h, ih.1 hn⟩, fun hn => ih.2 hn.2⟩

lemma lookup_of_mem {x : Option α} (hn : (ready.map (·.1)).Nodup) (h : (slot, x) ∈ ready) :
    ready.lookup slot = some x := by
  induction ready with
  | nil => cases h
  | cons y ready ih =>
    obtain ⟨s, y⟩ := y
    rw [List.map_cons, List.nodup_cons] at hn
    rw [List.lookup_cons]
    rcases List.mem_cons.1 h with he | h
    · cases he
      rw [beq_self_eq_true]
    · have hne : slot ≠ s := fun hs => hn.1 (hs ▸ List.mem_map.2 ⟨_, h, rfl⟩)
      rw [beq_false_of_ne hne]
      exact ih hn.2 h

lemma isSettled_settled (x : Option α) : (settled x).promise.isSettled = true := by
  cases x <;> rfl

/-! ### Beginnings -/

lemma calls_of_no_insertion (h : Relays capacity ready none await c) :
    c.calls = waitCalls ready await := by
  rcases h.calls with hc | hc
  · exact hc
  · rw [hc, insertCalls, Option.toList_none, List.map_nil, List.append_nil]

lemma calls_of_no_wait (h : Relays capacity ready ins none c) : c.calls = insertCalls ins := by
  rcases h.calls with hc | hc
  · rw [hc, waitCalls, Option.toList_none, List.map_nil, List.append_nil]
  · exact hc

lemma relays_beginInsert (h : Relays capacity ready none await c) (slot : Slot) (a : α) :
    ∃ granted, Relays capacity ready (some ⟨(c.beginInsert slot a).2, slot, a, granted⟩) await
      (c.beginInsert slot a).1 := by
  have hcalls := calls_of_no_insertion h
  have hapart (i : Insertion α) (w : Await) (hi : i.ticket = c.nextTicket)
      (hw : await = some w) : i.ticket ≠ w.ticket := by
    have := h.before (w.ticket, .wait w.slot (promiseOf ready w.slot) true) (by
      rw [hcalls, hw]
      exact List.mem_singleton.2 rfl)
    rw [hi]
    exact Nat.ne_of_gt this
  have hbefore (call : Call α) (x : Ticket × Call α) (hx : x ∈ c.calls ++ [(c.nextTicket, call)]) :
      x.1 < c.nextTicket + 1 := by
    rcases List.mem_append.1 hx with hx | hx
    · exact Nat.lt_succ_of_lt (h.before x hx)
    · rw [List.mem_singleton.1 hx]
      exact Nat.lt_succ_self _
  have hshares := h.shares
  unfold beginInsert
  split
  · next hf =>
    refine ⟨true, h.isOpen, h.entries, .inr ?_, hbefore _, ?_, ?_, ?_⟩
    · show c.calls ++ [_] = _
      rw [hcalls]
      rfl
    · rintro i w hi hw
      cases hi
      exact hapart _ w rfl hw
    · simp only [Option.any_none, Option.any_some, Bool.toNat_false, Bool.toNat_true] at hshares ⊢
      show c.free - 1 + _ + 1 = _
      omega
    · intro i hi hg
      cases hi
      cases hg
  · next hf =>
    refine ⟨false, h.isOpen, h.entries, .inr ?_, hbefore _, ?_, ?_, ?_⟩
    · show c.calls ++ [_] = _
      rw [hcalls]
      rfl
    · rintro i w hi hw
      cases hi
      exact hapart _ w rfl hw
    · exact hshares
    · intro i hi hg
      exact Nat.eq_zero_of_not_pos hf

/-! ### Settling a slot -/

lemma tell_insertCalls (ins : Option (Insertion α)) (slot : Slot) (p : Promise α) :
    (insertCalls ins).map (tell slot p) = insertCalls ins := by
  cases ins <;> rfl

lemma tell_waitCalls (ready : Ready α) (await : Option Await) (slot : Slot) (x : Option α)
    (hs : slot ∉ ready.map (·.1)) :
    (waitCalls ready await).map (tell slot (settled x).promise)
      = waitCalls (ready ++ [(slot, x)]) await := by
  cases await with
  | none => rfl
  | some w =>
    rw [waitCalls, waitCalls, Option.toList_some, List.map_singleton, List.map_singleton,
      List.map_singleton, tell, promiseOf, promiseOf, lookup_append_singleton]
    by_cases hw : w.slot = slot
    · have hn : ready.lookup w.slot = none := lookup_eq_none_iff.2 (hw ▸ hs)
      rw [if_pos hw, if_pos hw, hn]
      rfl
    · rw [if_neg hw, if_neg hw, Option.or_none]

/-- An unsettled slot holds no share. -/
lemma holdsShare_of_unsettled (h : Relays capacity ready ins await c)
    (hs : slot ∉ ready.map (·.1)) :
    ((c.entries.get? slot).map (·.holdsShare)).getD false = false := by
  rw [h.entries, entryOf, lookup_eq_none_iff.2 hs, Option.map_none, Option.none_or]
  split <;> rfl

lemma entryOf_settle (ready : Ready α) (await : Option Await) (slot s : Slot) (x : Option α)
    (hs : slot ∉ ready.map (·.1)) :
    (if s = slot then some (settled x) else entryOf ready await s)
      = entryOf (ready ++ [(slot, x)]) await s := by
  rw [entryOf, entryOf, lookup_append_singleton]
  by_cases h : s = slot
  · subst h
    rw [if_pos rfl, if_pos rfl, lookup_eq_none_iff.2 hs]
    rfl
  · rw [if_neg h, if_neg h, Option.or_none]

lemma countP_settle (ready : Ready α) (slot : Slot) (x : Option α) :
    (ready ++ [(slot, x)]).countP (·.2.isSome) = ready.countP (·.2.isSome) + x.isSome.toNat := by
  rw [List.countP_append]
  cases x <;> rfl

lemma tickets_tell {slot : Slot} {p : Promise α} {calls : List (Ticket × Call α)} {n : Ticket}
    (h : ∀ x ∈ calls, x.1 < n) : ∀ x ∈ calls.map (tell slot p), x.1 < n := by
  intro x hx
  obtain ⟨⟨u, call⟩, hy, rfl⟩ := List.mem_map.1 hx
  have := h _ hy
  cases call with
  | insert => exact this
  | wait s seen attached => cases attached <;> exact this

lemma relays_setEntry (h : Relays capacity ready none await c) (hs : slot ∉ ready.map (·.1))
    (x : Option α) :
    (c.setEntry slot (settled x)).closed = false ∧
      (∀ s, (c.setEntry slot (settled x)).entries.get? s
        = entryOf (ready ++ [(slot, x)]) await s) ∧
      (c.setEntry slot (settled x)).calls = waitCalls (ready ++ [(slot, x)]) await ∧
      ∀ y ∈ (c.setEntry slot (settled x)).calls, y.1 < c.nextTicket := by
  refine ⟨h.isOpen, fun s => ?_, ?_, tickets_tell h.before⟩
  · show (c.entries.insert slot _).get? s = _
    rw [Ledger.get?_insert, h.entries, entryOf_settle ready await slot s x hs]
  · show c.calls.map (tell slot (settled x).promise) = _
    rw [calls_of_no_insertion h, tell_waitCalls ready await slot x hs]

lemma relays_markUnavailable (h : Relays capacity ready none await c)
    (hs : slot ∉ ready.map (·.1)) :
    Relays capacity (ready ++ [(slot, none)]) none await (c.markUnavailable slot) := by
  have hmark : c.markUnavailable slot = c.setEntry slot (settled none) := by
    rw [markUnavailable, holdsShare_of_unsettled h hs]
    rfl
  obtain ⟨hopen, hentries, hcalls, hbefore⟩ := relays_setEntry h hs none
  rw [hmark]
  refine ⟨hopen, hentries, .inl hcalls, hbefore, nofun, ?_, nofun⟩
  rw [countP_settle]
  exact h.shares

/-! ### Answers -/

lemma lookup_insertion {i : Insertion α} (h : Relays capacity ready (some i) await c) :
    c.call? i.ticket = some (.insert i.slot i.value i.granted) := by
  rcases h.calls with hc | hc
  · simp [call?, hc, insertCalls]
  · cases await with
    | none => simp [call?, hc, insertCalls, waitCalls]
    | some w =>
      have hne : (i.ticket == w.ticket) = false := beq_false_of_ne (h.apart i w rfl rfl)
      rw [call?, hc]
      show List.lookup i.ticket [(w.ticket, _), (i.ticket, _)] = _
      rw [List.lookup_cons, hne, List.lookup_cons, beq_self_eq_true]

lemma forget_insertion {i : Insertion α} (h : Relays capacity ready (some i) await c) :
    (c.forget i.ticket).calls = waitCalls ready await := by
  have hwait : (waitCalls ready await).filter (·.1 != i.ticket) = waitCalls ready await := by
    cases await with
    | none => rfl
    | some w =>
      have hne : (w.ticket != i.ticket) = true := bne_iff_ne.2 (h.apart i w rfl rfl).symm
      simp [waitCalls, hne]
  have hins : (insertCalls (some i)).filter (·.1 != i.ticket) = [] := by simp [insertCalls]
  rcases h.calls with hc | hc
  · rw [forget, hc, List.filter_append, hwait, hins, List.nil_append]
  · rw [forget, hc, List.filter_append, hwait, hins, List.append_nil]

lemma lookup_await {w : Await} (h : Relays capacity ready ins (some w) c) :
    c.call? w.ticket = some (.wait w.slot (promiseOf ready w.slot) true) := by
  rcases h.calls with hc | hc
  · cases ins with
    | none => simp [call?, hc, insertCalls, waitCalls]
    | some i =>
      have hne : (w.ticket == i.ticket) = false := beq_false_of_ne (h.apart i w rfl rfl).symm
      rw [call?, hc]
      show List.lookup w.ticket [(i.ticket, _), (w.ticket, _)] = _
      rw [List.lookup_cons, hne, List.lookup_cons, beq_self_eq_true]
  · simp [call?, hc, waitCalls]

lemma forget_await {w : Await} (h : Relays capacity ready ins (some w) c) :
    (c.forget w.ticket).calls = insertCalls ins := by
  have hins : (insertCalls ins).filter (·.1 != w.ticket) = insertCalls ins := by
    cases ins with
    | none => rfl
    | some i =>
      have hne : (i.ticket != w.ticket) = true := bne_iff_ne.2 (h.apart i w rfl rfl)
      simp [insertCalls, hne]
  have hwait : (waitCalls ready (some w)).filter (·.1 != w.ticket) = [] := by simp [waitCalls]
  rcases h.calls with hc | hc
  · rw [forget, hc, List.filter_append, hwait, hins, List.append_nil]
  · rw [forget, hc, List.filter_append, hwait, hins, List.nil_append]

/-- An insertion with a share settles its slot, one without waits. -/
lemma relays_poll_insertion {i : Insertion α} (h : Relays capacity ready (some i) await c)
    (hs : i.slot ∉ ready.map (·.1)) (branch : Branch) :
    if i.granted then
      (c.poll i.ticket branch).2 = some .inserted ∧
        Relays capacity (ready ++ [(i.slot, some i.value)]) none await (c.poll i.ticket branch).1
    else c.poll i.ticket branch = (c, none) := by
  have hopen := h.isOpen
  rw [poll, lookup_insertion h]
  cases hg : i.granted with
  | false => simp [hopen]
  | true =>
    have hf : Relays (capacity - 1) ready none await (c.forget i.ticket) := by
      refine ⟨h.isOpen, h.entries, .inl (forget_insertion h), fun x hx => ?_, nofun, ?_, nofun⟩
      · exact h.before x (List.mem_filter.1 hx).1
      · have := h.shares
        simp only [Option.any_some, hg, Bool.toNat_true] at this
        show c.free + _ + 0 = _
        omega
    have hpublish : (c.forget i.ticket).publish i.slot i.value
        = (c.forget i.ticket).setEntry i.slot (settled (some i.value)) := by
      unfold publish
      rw [holdsShare_of_unsettled hf hs]
      rfl
    obtain ⟨hopen', hentries, hcalls, hbefore⟩ := relays_setEntry hf hs (some i.value)
    simp only [hopen, Bool.false_and, Bool.false_eq_true, if_false, if_true, hpublish]
    refine ⟨trivial, hopen', hentries, .inl hcalls, hbefore, nofun, ?_, nofun⟩
    have := h.shares
    simp only [Option.any_some, hg, Bool.toNat_true] at this
    rw [countP_settle]
    show c.free + (_ + 1) + 0 = _
    omega

/-! ### Taking -/

lemma entryOf_none (ready : Ready α) (s : Slot) :
    entryOf ready none s = (ready.lookup s).map settled := Option.or_none

lemma entryOf_some (ready : Ready α) (w : Await) (s : Slot) :
    entryOf ready (some w) s =
      if s = w.slot ∧ ready.lookup s = none then some ⟨.pending, false⟩
      else entryOf ready none s := by
  rw [entryOf_none, entryOf, Option.map_some]
  cases ready.lookup s with
  | some x => simp
  | none =>
    by_cases hs : s = w.slot
    · simp [hs]
    · simp [hs, Ne.symm hs]

lemma relays_beginWait (h : Relays capacity ready ins none c) (slot : Slot) :
    Relays capacity ready ins (some ⟨(c.beginWait slot).2, slot⟩) (c.beginWait slot).1 := by
  have hcalls := calls_of_no_wait h
  have hentry : c.entries.get? slot = (ready.lookup slot).map settled := by
    rw [h.entries, entryOf_none]
  have hapart (i : Insertion α) (hi : ins = some i) : i.ticket ≠ c.nextTicket := by
    have := h.before (i.ticket, .insert i.slot i.value i.granted) (by
      rw [hcalls, hi]
      exact List.mem_singleton.2 rfl)
    exact Nat.ne_of_lt this
  have hbefore (call : Call α) (x : Ticket × Call α) (hx : x ∈ c.calls ++ [(c.nextTicket, call)]) :
      x.1 < c.nextTicket + 1 := by
    rcases List.mem_append.1 hx with hx | hx
    · exact Nat.lt_succ_of_lt (h.before x hx)
    · rw [List.mem_singleton.1 hx]
      exact Nat.lt_succ_self _
  have htell : c.calls.map (tell slot .pending) = c.calls := by
    rw [hcalls, tell_insertCalls]
  unfold beginWait
  rw [hentry]
  cases hx : ready.lookup slot with
  | some x =>
    refine ⟨h.isOpen, fun s => ?_, .inl ?_, hbefore _, ?_, h.shares, h.starved⟩
    · rw [entryOf_some, if_neg]
      · exact h.entries s
      · rintro ⟨rfl, hn⟩
        exact nomatch hx.symm.trans hn
    · show c.calls ++ [_] = _
      rw [hcalls, waitCalls, Option.toList_some, List.map_singleton, promiseOf, hx]
      rfl
    · rintro i w hi hw
      cases hw
      exact hapart i hi
  | none =>
    refine ⟨h.isOpen, fun s => ?_, .inl ?_, fun x hx => ?_, ?_, h.shares, h.starved⟩
    · show (c.entries.insert slot _).get? s = _
      rw [Ledger.get?_insert, h.entries, entryOf_some]
      by_cases hs : s = slot
      · rw [if_pos hs, if_pos ⟨hs, hs ▸ hx⟩]
      · rw [if_neg hs, if_neg fun hn => hs hn.1]
    · show c.calls.map (tell slot .pending) ++ [_] = _
      rw [htell, hcalls, waitCalls, Option.toList_some, List.map_singleton, promiseOf, hx]
      rfl
    · refine hbefore (.wait slot .pending true) x ?_
      rw [← htell]
      exact hx
    · rintro i w hi hw
      cases hw
      exact hapart i hi

/-- What the wait for a slot is answered. -/
def answerOf (slot : Slot) : Option α → Answer α
  | some a => .taken a
  | none => .refused (.unavailable slot)

lemma detach_insertCalls (ins : Option (Insertion α)) (slot : Slot) :
    (insertCalls ins).map (detach slot) = insertCalls ins := by
  cases ins <;> rfl

/-- The insertion after a share was returned. -/
def regrant (ins : Option (Insertion α)) (returned : Bool) : Option (Insertion α) :=
  ins.map fun i => { i with granted := i.granted || returned }

lemma regrant_false (ins : Option (Insertion α)) : regrant ins false = ins := by
  cases ins with
  | none => rfl
  | some i => simp [regrant]

lemma grant_insertCalls (ins : Option (Insertion α)) :
    grant (insertCalls ins) =
      if ins.any (!·.granted) then some (insertCalls (regrant ins true)) else none := by
  cases ins with
  | none => rfl
  | some i =>
    obtain ⟨t, slot, a, granted⟩ := i
    cases granted <;> rfl

/-- A returned share goes to the insertion that waits for one. -/
lemma relays_release (h : Relays capacity ready ins none c) :
    Relays (capacity + 1) ready (regrant ins true) none c.release := by
  have hcalls := calls_of_no_wait h
  have hbefore : ∀ x ∈ insertCalls ins, x.1 < c.nextTicket := hcalls ▸ h.before
  have hshares := h.shares
  unfold release
  rw [hcalls, grant_insertCalls]
  cases ins with
  | none =>
    refine ⟨h.isOpen, h.entries, .inl rfl, hbefore, nofun, ?_, nofun⟩
    show c.free + 1 + _ + 0 = _
    simp only [Option.any_none, Bool.toNat_false] at hshares
    omega
  | some i =>
    obtain ⟨t, slot, a, granted⟩ := i
    cases granted with
    | true =>
      refine ⟨h.isOpen, h.entries, .inl rfl, hbefore, nofun, ?_, ?_⟩
      · simp only [Option.any_some, Bool.toNat_true] at hshares
        show c.free + 1 + _ + 1 = _
        omega
      · rintro i hi hg
        cases hi
        cases hg
    | false =>
      refine ⟨h.isOpen, h.entries, .inl rfl, fun x hx => ?_, nofun, ?_, ?_⟩
      · have := hbefore (t, .insert slot a false) (List.mem_singleton.2 rfl)
        rw [List.mem_singleton.1 hx]
        exact this
      · simp only [Option.any_some, Bool.toNat_false] at hshares
        show c.free + _ + 1 = _
        omega
      · rintro i hi hg
        cases hi
        cases hg

/-- The cache without a wait and the entry it was for, whose share is not returned yet. -/
def taken (c : Cache α) (w : Await) : Cache α :=
  { c.forget w.ticket with
    entries := c.entries.erase w.slot
    calls := (c.forget w.ticket).calls.map (detach w.slot) }

/-- Who waits for the slot that is settled first takes it, with the share it holds. -/
lemma relays_poll_await {w : Await} {x : Option α}
    (h : Relays capacity ((w.slot, x) :: ready) ins (some w) c)
    (hs : w.slot ∉ ready.map (·.1)) (branch : Branch) :
    (c.poll w.ticket branch).2 = some (answerOf w.slot x) ∧
      Relays capacity ready (regrant ins x.isSome) none (c.poll w.ticket branch).1 := by
  have hlookup : ((w.slot, x) :: ready).lookup w.slot = some x := by
    rw [List.lookup_cons, beq_self_eq_true]
  have hpromise : promiseOf ((w.slot, x) :: ready) w.slot = (settled x).promise := by
    rw [promiseOf, hlookup]
    rfl
  have hentry : (c.forget w.ticket).entries.get? w.slot = some (settled x) := by
    show c.entries.get? w.slot = _
    rw [h.entries, entryOf, hlookup]
    rfl
  have hcalls : (c.taken w).calls = insertCalls ins := by
    rw [taken, forget_await h, detach_insertCalls]
  have hrest : Relays (capacity - x.isSome.toNat) ready ins none (c.taken w) := by
    have hshares := h.shares
    rw [List.countP_cons] at hshares
    refine ⟨h.isOpen, fun s => ?_, .inl ?_, fun y hy => ?_, nofun, ?_, h.starved⟩
    · show (c.entries.erase w.slot).get? s = _
      rw [Ledger.get?_erase, h.entries, entryOf_some, entryOf_none, entryOf_none, List.lookup_cons]
      by_cases hsw : s = w.slot
      · subst hsw
        rw [if_pos rfl, lookup_eq_none_iff.2 hs]
        rfl
      · have hb : (s == w.slot) = false := beq_false_of_ne hsw
        rw [if_neg hsw, if_neg fun hn => hsw hn.1, hb]
    · rw [hcalls, waitCalls, Option.toList_none, List.map_nil, List.append_nil]
    · have hy' : y ∈ (c.forget w.ticket).calls := by
        rw [forget_await h, ← hcalls]
        exact hy
      exact h.before y (List.mem_filter.1 hy').1
    · show c.free + _ + _ = _
      cases x with
      | none => simpa using hshares
      | some a =>
        simp only [Option.isSome_some, if_true] at hshares
        show _ = capacity - 1
        omega
  have hremove : (c.forget w.ticket).removeEntry w.slot =
      if x.isSome then (c.taken w).release else c.taken w := by
    unfold removeEntry
    rw [hentry]
    cases x <;> rfl
  rw [poll, lookup_await h]
  simp only [hpromise, isSettled_settled, h.isOpen, Bool.not_false, Bool.true_or, Bool.and_self,
    if_true, hremove]
  refine ⟨?_, ?_⟩
  · cases x <;> rfl
  · cases x with
    | none =>
      show Relays capacity ready (regrant ins false) none (c.taken w)
      rw [regrant_false]
      exact hrest
    | some a =>
      have hpos : capacity - (some a).isSome.toNat + 1 = capacity := by
        have hshares := h.shares
        rw [List.countP_cons] at hshares
        simp only [Option.isSome_some, if_true, Bool.toNat_true] at hshares ⊢
        omega
      have hreleased := relays_release hrest
      rw [hpos] at hreleased
      exact hreleased

/-- Nothing is taken before it is settled. -/
lemma poll_unsettled {w : Await} (h : Relays capacity ready ins (some w) c)
    (hs : w.slot ∉ ready.map (·.1)) (branch : Branch) : c.poll w.ticket branch = (c, none) := by
  have hpromise : promiseOf ready w.slot = .pending := by
    rw [promiseOf, lookup_eq_none_iff.2 hs]
    rfl
  rw [poll, lookup_await h]
  simp [hpromise, h.isOpen, Promise.isSettled]

end EpochRewards.Cache
