import EpochRewards.Proofs.Promises

/-!
Where the shares of a cache are.

A share is free, with an entry, or with an insertion that has been granted it and has not been
answered. No operation makes or loses one, and an insertion only waits for a share while none is
free.
-/

namespace EpochRewards.Cache

variable {α : Type}

/-- The share that a call waits for (`false`) or has been granted (`true`). -/
def Call.share? : Call α → Option Bool
  | .insert _ _ granted => some granted
  | .wait .. => none

/-- The shares granted to insertions that have not been answered. -/
def inTransit (c : Cache α) : Nat := c.calls.countP fun x => x.2.share? = some true

/-- The values that are published and not taken. -/
def unconsumed (c : Cache α) : Nat := c.entries.values.countP fun e =>
  match e.promise with
  | .ready _ => true
  | _ => false

/-- The entry of a slot holds a share. -/
def holds (c : Cache α) (slot : Slot) : Bool := ((c.entries.get? slot).map (·.holdsShare)).getD false

/-- A cache in which there are `n` shares. -/
structure Conserves (n : Nat) (c : Cache α) : Prop where
  tickets : (c.calls.map (·.1)).Nodup
  before : ∀ x ∈ c.calls, x.1 < c.nextTicket
  shares : c.size + c.free + c.inTransit = n
  /-- an insertion only waits for a share if there is none -/
  starved : ∀ x ∈ c.calls, x.2.share? = some false → c.free = 0
  /-- whatever is published holds a share -/
  published : ∀ slot e a, c.entries.get? slot = some e → e.promise = .ready a →
    e.holdsShare = true

variable {n : Nat} {c c' : Cache α} {slot : Slot} {t : Ticket} {a : α} {branch : Branch}
  {calls calls' : List (Ticket × Call α)} {e : Entry α}

lemma conserves_ofCapacity (capacity : Nat) : Conserves capacity (ofCapacity capacity : Cache α) where
  tickets := List.nodup_nil
  before := nofun
  shares := Nat.zero_add capacity
  starved := nofun
  published := nofun

lemma Conserves.size_le (h : Conserves n c) : c.size ≤ n := by
  have := h.shares
  omega

lemma Conserves.unconsumed_le (h : Conserves n c) : c.unconsumed ≤ c.size := by
  refine List.countP_mono_left fun e he hready => ?_
  obtain ⟨slot, hget⟩ := Ledger.get?_of_mem_values he
  cases hp : e.promise with
  | ready a => exact h.published slot e a hget hp
  | pending | unavailable => rw [hp] at hready; cases hready

/-! ### Entries -/

@[simp] lemma entries_release (c : Cache α) : c.release.entries = c.entries := by
  unfold release
  split <;> rfl

@[simp] lemma entries_drop (c : Cache α) (t : Ticket) : (c.drop t).entries = c.entries := by
  unfold drop
  split
  · exact entries_release _
  · rfl

@[simp] lemma entries_beginInsert (c : Cache α) (slot : Slot) (a : α) :
    (c.beginInsert slot a).1.entries = c.entries := by
  unfold beginInsert
  split <;> rfl

lemma get?_setEntry (c : Cache α) (slot s : Slot) (e : Entry α) :
    (c.setEntry slot e).entries.get? s = if s = slot then some e else c.entries.get? s :=
  Ledger.get?_insert ..

lemma get?_publish (c : Cache α) (slot s : Slot) (a : α) :
    (c.publish slot a).entries.get? s
      = if s = slot then some ⟨.ready a, true⟩ else c.entries.get? s := by
  have hset := get?_setEntry c slot s ⟨.ready a, true⟩
  unfold publish
  dsimp only
  split
  · rw [entries_release]
    exact hset
  · exact hset

lemma get?_removeEntry (c : Cache α) (slot s : Slot) :
    (c.removeEntry slot).entries.get? s = if s = slot then none else c.entries.get? s := by
  unfold removeEntry
  split
  · next hnone =>
    by_cases hs : s = slot
    · rw [if_pos hs, hs, hnone]
    · rw [if_neg hs]
  · dsimp only
    split
    · rw [entries_release]
      exact Ledger.get?_erase ..
    · exact Ledger.get?_erase ..

lemma get?_removeAll (slots : List Slot) (c : Cache α) (s : Slot) :
    (slots.foldl removeEntry c).entries.get? s
      = if s ∈ slots then none else c.entries.get? s := by
  induction slots generalizing c with
  | nil => simp
  | cons slot slots ih =>
    rw [List.foldl_cons, ih, get?_removeEntry]
    by_cases hs : s ∈ slots
    · simp [hs]
    · by_cases hslot : s = slot
      · simp [hslot]
      · simp [hs, hslot]

/-- Without an entry that holds a share nothing is published. -/
lemma size_eq_zero (h : ∀ slot, c.holds slot = false) : c.size = 0 := by
  refine List.countP_eq_zero.2 fun e he hshare => ?_
  obtain ⟨slot, hget⟩ := Ledger.get?_of_mem_values he
  have hslot := h slot
  rw [holds, hget] at hslot
  exact Bool.false_ne_true (hslot.symm.trans hshare)

/-! ### Which entries hold a share -/

lemma holds_congr (h : c'.entries.get? slot = c.entries.get? slot) :
    c'.holds slot = c.holds slot := by
  rw [holds, holds, h]

lemma holds_beginInsert (c : Cache α) (slot s : Slot) (a : α) :
    (c.beginInsert slot a).1.holds s = c.holds s := by
  rw [holds, holds, entries_beginInsert]

lemma holds_drop (c : Cache α) (t : Ticket) (s : Slot) : (c.drop t).holds s = c.holds s := by
  rw [holds, holds, entries_drop]

lemma holds_markUnavailable (c : Cache α) (slot s : Slot) :
    (c.markUnavailable slot).holds s = c.holds s := by
  by_cases hs : s = slot
  · rw [hs, holds, markUnavailable, get?_setEntry, if_pos rfl]
    rfl
  · exact holds_congr ((get?_setEntry ..).trans (if_neg hs))

lemma holds_publish (c : Cache α) (slot s : Slot) (a : α) :
    (c.publish slot a).holds s = if s = slot then true else c.holds s := by
  by_cases hs : s = slot
  · rw [if_pos hs, holds, get?_publish, if_pos hs]
    rfl
  · rw [if_neg hs]
    exact holds_congr ((get?_publish ..).trans (if_neg hs))

lemma holds_removeEntry (c : Cache α) (slot s : Slot) :
    (c.removeEntry slot).holds s = if s = slot then false else c.holds s := by
  by_cases hs : s = slot
  · rw [if_pos hs, holds, get?_removeEntry, if_pos hs]
    rfl
  · rw [if_neg hs]
    exact holds_congr ((get?_removeEntry ..).trans (if_neg hs))

lemma holds_beginWait (c : Cache α) (slot s : Slot) :
    (c.beginWait slot).1.holds s = c.holds s := by
  unfold beginWait
  split
  · rfl
  · next hnone =>
    by_cases hs : s = slot
    · have hheld : c.holds s = false := by rw [hs, holds, hnone]; rfl
      rw [hheld]
      exact congrArg (fun e => (e.map Entry.holdsShare).getD false)
        ((get?_setEntry c slot s ⟨.pending, false⟩).trans (if_pos hs))
    · exact holds_congr ((get?_setEntry ..).trans (if_neg hs))

/-! ### Shares that are returned -/

lemma share?_of_grant_none (h : grant calls = none) : ∀ x ∈ calls, x.2.share? ≠ some false := by
  induction calls with
  | nil => nofun
  | cons y calls ih =>
    unfold grant at h
    split at h
    · next he => cases he
    · cases h
    · next rest hne he =>
      obtain ⟨rfl, rfl⟩ := List.cons_eq_cons.1 he
      intro x hx
      rcases List.mem_cons.1 hx with rfl | hx
      · intro hshare
        obtain ⟨t, call⟩ := x
        cases call with
        | wait => cases hshare
        | insert slot a granted =>
          cases hshare
          exact hne t slot a rfl
      · exact ih (Option.map_eq_none_iff.1 h) x hx

/-- A share is granted to one insertion that has waited for it. -/
lemma grant_eq_some (h : grant calls = some calls') :
    calls'.map (·.1) = calls.map (·.1) ∧
      calls'.countP (fun x => x.2.share? = some true)
        = calls.countP (fun x => x.2.share? = some true) + 1 ∧
      ∃ x ∈ calls, x.2.share? = some false := by
  induction calls generalizing calls' with
  | nil => cases h
  | cons y calls ih =>
    unfold grant at h
    split at h
    · next he => cases he
    · next t slot a rest he =>
      cases h
      obtain ⟨rfl, rfl⟩ := List.cons_eq_cons.1 he
      refine ⟨rfl, ?_, _, List.mem_cons_self, rfl⟩
      rw [List.countP_cons_of_pos rfl, List.countP_cons_of_neg (by simp [Call.share?])]
    · next rest _ he =>
      obtain ⟨rfl, rfl⟩ := List.cons_eq_cons.1 he
      obtain ⟨granted, hg, rfl⟩ := Option.map_eq_some_iff.1 h
      obtain ⟨htickets, hcount, x, hx, hshare⟩ := ih hg
      refine ⟨?_, ?_, x, List.mem_cons_of_mem _ hx, hshare⟩
      · rw [List.map_cons, List.map_cons, htickets]
      · rw [List.countP_cons, List.countP_cons, hcount]
        omega

lemma Conserves.release (h : Conserves n c) : Conserves (n + 1) c.release := by
  have hshares := h.shares
  have hpublished := h.published
  unfold Cache.release
  split
  · next calls hg =>
    obtain ⟨htickets, hcount, x, hx, hshare⟩ := grant_eq_some hg
    have hfree := h.starved x hx hshare
    refine ⟨?_, fun y hy => ?_, ?_, fun _ _ _ => hfree, hpublished⟩
    · rw [htickets]
      exact h.tickets
    · have hticket : y.1 ∈ c.calls.map (·.1) := htickets ▸ List.mem_map_of_mem hy
      obtain ⟨z, hz, hzy⟩ := List.mem_map.1 hticket
      exact hzy ▸ h.before z hz
    · show c.size + c.free + calls.countP _ = n + 1
      rw [hcount, ← Nat.add_assoc]
      exact congrArg (· + 1) hshares
  · next hg =>
    refine ⟨h.tickets, h.before, ?_, fun x hx hshare => ?_, hpublished⟩
    · show c.size + (c.free + 1) + c.inTransit = n + 1
      omega
    · exact absurd hshare (share?_of_grant_none hg x hx)

/-! ### Entries that come and go -/

/-- What is shown to those who wait changes neither tickets nor shares. -/
lemma Conserves.map_calls {f : Ticket × Call α → Ticket × Call α}
    (hf : ∀ x, (f x).1 = x.1 ∧ (f x).2.share? = x.2.share?) (entries : Ledger (Entry α))
    {m : Nat} (h : Conserves n c)
    (hsize : entries.values.countP (·.holdsShare) + n = c.size + m)
    (hpublished : ∀ slot e a, entries.get? slot = some e → e.promise = .ready a →
      e.holdsShare = true) :
    Conserves m { c with entries, calls := c.calls.map f } where
  tickets := by
    have hsame : (c.calls.map f).map (·.1) = c.calls.map (·.1) := by
      rw [List.map_map]
      exact List.map_congr_left fun x _ => (hf x).1
    rw [hsame]
    exact h.tickets
  before x hx := by
    obtain ⟨y, hy, rfl⟩ := List.mem_map.1 hx
    rw [(hf y).1]
    exact h.before y hy
  shares := by
    have hcount : (c.calls.map f).countP (fun x => x.2.share? = some true) = c.inTransit := by
      rw [List.countP_map]
      exact List.countP_congr fun x _ => by simp [(hf x).2]
    have hshares := h.shares
    show entries.values.countP (·.holdsShare) + c.free + (c.calls.map f).countP _ = m
    rw [hcount]
    omega
  starved x hx hshare := by
    obtain ⟨y, hy, rfl⟩ := List.mem_map.1 hx
    rw [(hf y).2] at hshare
    exact h.starved y hy hshare
  published := hpublished

lemma tell_keeps (slot : Slot) (p : Promise α) (x : Ticket × Call α) :
    (tell slot p x).1 = x.1 ∧ (tell slot p x).2.share? = x.2.share? := by
  obtain ⟨t, call⟩ := x
  cases call with
  | insert => exact ⟨rfl, rfl⟩
  | wait s seen attached => cases attached <;> exact ⟨rfl, rfl⟩

lemma detach_keeps (slot : Slot) (x : Ticket × Call α) :
    (detach slot x).1 = x.1 ∧ (detach slot x).2.share? = x.2.share? := by
  obtain ⟨t, call⟩ := x
  cases call <;> exact ⟨rfl, rfl⟩

lemma Conserves.setEntry {m : Nat} (h : Conserves n c)
    (hshare : (c.holds slot).toNat + m = n + e.holdsShare.toNat)
    (he : ∀ a, e.promise = .ready a → e.holdsShare = true) :
    Conserves m (c.setEntry slot e) := by
  refine h.map_calls (tell_keeps slot e.promise) _ ?_ fun s e' a hget hready => ?_
  · have hcount := c.entries.countP_values_insert slot e (·.holdsShare)
    have hsize := h.shares
    have hholds : ((c.entries.get? slot).map (·.holdsShare)).getD false = c.holds slot := rfl
    have hbefore : c.entries.values.countP (·.holdsShare) = c.size := rfl
    rw [hholds, hbefore] at hcount
    omega
  · rw [Ledger.get?_insert] at hget
    split at hget
    · cases hget
      exact he a hready
    · exact h.published s e' a hget hready

lemma Conserves.markUnavailable (h : Conserves n c) (slot : Slot) :
    Conserves n (c.markUnavailable slot) := by
  refine h.setEntry ?_ nofun
  exact Nat.add_comm _ _

/-- A published value brings its own share. -/
lemma Conserves.publish (h : Conserves n c) (slot : Slot) (a : α) :
    Conserves (n + 1) (c.publish slot a) := by
  unfold Cache.publish
  dsimp only
  split
  · next hheld =>
    have hset : Conserves n (c.setEntry slot ⟨.ready a, true⟩) := by
      refine h.setEntry ?_ fun _ _ => rfl
      rw [show c.holds slot = true from hheld]
      exact Nat.add_comm _ _
    exact hset.release
  · next hheld =>
    refine h.setEntry ?_ fun _ _ => rfl
    rw [show c.holds slot = false from eq_false_of_ne_true hheld]
    exact Nat.zero_add _

lemma Conserves.removeEntry (h : Conserves n c) (slot : Slot) :
    Conserves n (c.removeEntry slot) := by
  unfold Cache.removeEntry
  split
  · exact h
  · next e he =>
    have hcount := c.entries.countP_values_erase slot (·.holdsShare)
    have hholds : ((c.entries.get? slot).map (·.holdsShare)).getD false = e.holdsShare := by
      rw [he]
      rfl
    have hbefore : c.entries.values.countP (·.holdsShare) = c.size := rfl
    have hle := h.size_le
    rw [hholds, hbefore] at hcount
    have hrest (m : Nat) (hm : m + e.holdsShare.toNat = n) :
        Conserves m { c with
          entries := c.entries.erase slot
          calls := c.calls.map (detach slot) } := by
      refine h.map_calls (detach_keeps slot) _ (by omega) fun s e' a hget hready => ?_
      rw [Ledger.get?_erase] at hget
      split at hget
      · cases hget
      · exact h.published s e' a hget hready
    dsimp only
    split
    · next hshare =>
      rw [hshare, Bool.toNat_true] at hrest hcount
      have hpos : n - 1 + 1 = n := by omega
      have hreleased := (hrest (n - 1) hpos).release
      rwa [hpos] at hreleased
    · next hshare =>
      rw [eq_false_of_ne_true hshare] at hrest
      exact hrest n rfl

lemma Conserves.removeAll (h : Conserves n c) (slots : List Slot) :
    Conserves n (slots.foldl Cache.removeEntry c) := by
  induction slots generalizing c with
  | nil => exact h
  | cons slot slots ih => exact ih (h.removeEntry slot)

/-! ### Calls that come and go -/

lemma Conserves.enter {m : Nat} {call : Call α} (h : Conserves n c)
    (hm : m = n + (decide (call.share? = some true)).toNat)
    (hfree : call.share? = some false → c.free = 0) : Conserves m (c.enter call).1 where
  tickets := by
    show ((c.calls ++ [(c.nextTicket, call)]).map (·.1)).Nodup
    rw [List.map_append, List.nodup_append]
    refine ⟨h.tickets, List.nodup_singleton _, fun u hu v hv huv => ?_⟩
    obtain ⟨x, hx, rfl⟩ := List.mem_map.1 hu
    rw [List.mem_singleton.1 hv] at huv
    exact Nat.ne_of_lt (h.before x hx) huv
  before x hx := by
    rcases List.mem_append.1 hx with hx | hx
    · exact Nat.lt_succ_of_lt (h.before x hx)
    · rw [List.mem_singleton.1 hx]
      exact Nat.lt_succ_self _
  shares := by
    have hshares := h.shares
    have hone : [(c.nextTicket, call)].countP (fun x => x.2.share? = some true)
        = (decide (call.share? = some true)).toNat := by
      rw [List.countP_singleton]
      cases decide (call.share? = some true) <;> rfl
    show c.size + c.free + (c.calls ++ [(c.nextTicket, call)]).countP _ = m
    rw [List.countP_append, hone]
    have hbefore : c.calls.countP (fun x => x.2.share? = some true) = c.inTransit := rfl
    omega
  starved x hx hshare := by
    rcases List.mem_append.1 hx with hx | hx
    · exact h.starved x hx hshare
    · rw [List.mem_singleton.1 hx] at hshare
      exact hfree hshare
  published := h.published

/-- A free share is granted to the insertion that takes it. -/
lemma Conserves.beginInsert (h : Conserves n c) (slot : Slot) (a : α) :
    Conserves n (c.beginInsert slot a).1 := by
  have hshares := h.shares
  unfold Cache.beginInsert
  split
  · next hfree =>
    have hrest : Conserves (n - 1) { c with free := c.free - 1 } := by
      refine ⟨h.tickets, h.before, ?_, fun x hx hs => ?_, h.published⟩
      · show c.size + (c.free - 1) + c.inTransit = n - 1
        omega
      · have := h.starved x hx hs
        omega
    refine hrest.enter ?_ nofun
    show n = n - 1 + 1
    omega
  · next hfree => exact h.enter rfl fun _ => Nat.eq_zero_of_not_pos hfree

lemma Conserves.beginWait (h : Conserves n c) (slot : Slot) :
    Conserves n (c.beginWait slot).1 := by
  unfold Cache.beginWait
  split
  · exact h.enter rfl nofun
  · next hnone =>
    have hset : Conserves n (c.setEntry slot ⟨.pending, false⟩) := by
      refine h.setEntry ?_ nofun
      rw [holds, hnone]
      exact Nat.zero_add n
    exact hset.enter rfl nofun

/-- The share of a call is the only one that goes with it. -/
lemma countP_forget (hn : (c.calls.map (·.1)).Nodup) {call : Call α} (hc : c.call? t = some call) :
    (c.forget t).inTransit + (decide (call.share? = some true)).toNat = c.inTransit := by
  rw [call?, List.lookup_eq_some_iff] at hc
  obtain ⟨before, after, hcalls, -⟩ := hc
  rw [hcalls, List.map_append, List.map_cons] at hn
  have hother := List.nodup_middle.1 hn
  have hne (x : Ticket × Call α) (hx : x ∈ before ++ after) : (x.1 != t) = true := by
    refine bne_iff_ne.2 fun he => (List.nodup_cons.1 hother).1 ?_
    rw [← List.map_append]
    exact List.mem_map.2 ⟨x, hx, he⟩
  have hfilter : c.calls.filter (·.1 != t) = before ++ after := by
    rw [hcalls, List.filter_append, List.filter_cons_of_neg (by simp),
      List.filter_eq_self.2 fun x hx => hne x (List.mem_append_left _ hx),
      List.filter_eq_self.2 fun x hx => hne x (List.mem_append_right _ hx)]
  have hone (b : Bool) : b.toNat = if b then 1 else 0 := by cases b <;> rfl
  show (c.calls.filter (·.1 != t)).countP _ + _ = c.calls.countP _
  rw [hfilter, hcalls, List.countP_append, List.countP_append, List.countP_cons]
  rw [hone, Nat.add_assoc]

lemma Conserves.forget {m : Nat} {call : Call α} (h : Conserves n c) (hc : c.call? t = some call)
    (hm : m + (decide (call.share? = some true)).toNat = n) : Conserves m (c.forget t) where
  tickets := h.tickets.sublist (List.filter_sublist.map _)
  before x hx := h.before x (List.mem_filter.1 hx).1
  shares := by
    have hshares := h.shares
    have hcount := countP_forget h.tickets hc
    show c.size + c.free + (c.forget t).inTransit = m
    omega
  starved x hx hshare := h.starved x (List.mem_filter.1 hx).1 hshare
  published := h.published

lemma forget_of_none (hc : c.call? t = none) : c.forget t = c := by
  have hfilter : c.calls.filter (·.1 != t) = c.calls :=
    List.filter_eq_self.2 fun x hx => bne_iff_ne.2 fun he => by
      rw [call?, List.lookup_eq_none_iff] at hc
      exact absurd he.symm (by simpa using hc x hx)
  rw [Cache.forget, hfilter]

/-- A granted share is one of those there are. -/
lemma Conserves.granted_pos (h : Conserves n c) (hc : c.call? t = some (.insert slot a true)) :
    n - 1 + 1 = n := by
  have hcount := countP_forget h.tickets hc
  have hshares := h.shares
  have hone : (decide ((Call.insert slot a true).share? = some true)).toNat = 1 := rfl
  omega

/-- Whoever gives up a call passes its share on. -/
lemma Conserves.drop (h : Conserves n c) (t : Ticket) : Conserves n (c.drop t) := by
  unfold Cache.drop
  split
  · next slot a hc =>
    have hpos := h.granted_pos hc
    have hreleased := (h.forget (m := n - 1) hc hpos).release
    rwa [hpos] at hreleased
  · next hother =>
    cases hc : c.call? t with
    | some call =>
      refine h.forget hc ?_
      cases call with
      | wait => rfl
      | insert slot a granted =>
        cases granted with
        | false => rfl
        | true => exact absurd hc (hother slot a)
    | none =>
      rw [forget_of_none hc]
      exact h

/-- All that trying a call again can come to. It is refused if the cache is closed, or if the entry
that a wait was for is gone. -/
lemma poll_cases (c : Cache α) (t : Ticket) (branch : Branch) :
    c.poll t branch = (c, none) ∨
      ((c.closed = true ∨ ∃ slot seen, c.call? t = some (.wait slot seen false)) ∧
        c.poll t branch = (c.drop t, some (.refused .closed))) ∨
      (∃ slot a, c.call? t = some (.insert slot a true) ∧
        c.poll t branch = ((c.forget t).publish slot a, some .inserted)) ∨
      ∃ slot seen attached, c.call? t = some (.wait slot seen attached) ∧ seen.isSettled = true ∧
        c.poll t branch = ((c.forget t).removeEntry slot, some (delivery slot seen)) := by
  unfold Cache.poll
  split
  · exact .inl rfl
  · next slot a granted hc =>
    split
    · next hclosed =>
      rw [Bool.and_eq_true] at hclosed
      exact .inr (.inl ⟨.inl hclosed.1, rfl⟩)
    · split
      · next hgranted =>
        subst hgranted
        exact .inr (.inr (.inl ⟨slot, a, hc, rfl⟩))
      · exact .inl rfl
  · next slot seen attached hc =>
    split
    · next hseen =>
      rw [Bool.and_eq_true] at hseen
      exact .inr (.inr (.inr ⟨slot, seen, attached, hc, hseen.1, rfl⟩))
    · split
      · next hgone =>
        refine .inr (.inl ⟨?_, ?_⟩)
        · rw [Bool.or_eq_true] at hgone
          refine hgone.imp_right fun hdetached => ⟨slot, seen, ?_⟩
          rw [hc, show attached = false by simpa using hdetached]
        · rw [Cache.drop, hc]
      · exact .inl rfl

/-- **No answer makes or loses a share.** -/
theorem Conserves.poll (h : Conserves n c) (t : Ticket) (branch : Branch) :
    Conserves n (c.poll t branch).1 := by
  rcases c.poll_cases t branch with
    hp | ⟨-, hp⟩ | ⟨slot, a, hc, hp⟩ | ⟨slot, seen, attached, hc, -, hp⟩
  · rw [hp]
    exact h
  · rw [hp]
    exact h.drop t
  · have hpos := h.granted_pos hc
    have hpublished := (h.forget (m := n - 1) hc hpos).publish slot a
    rw [hpos] at hpublished
    rw [hp]
    exact hpublished
  · have hforget : Conserves n (c.forget t) := h.forget hc rfl
    rw [hp]
    exact hforget.removeEntry slot

/-- An insertion that is not answered finds no share free. -/
lemma Conserves.free_of_waiting {granted : Bool} (h : Conserves n c)
    (hc : c.call? t = some (.insert slot a granted)) (hp : (c.poll t branch).2 = none) :
    c.free = 0 := by
  have hmem : (t, Call.insert slot a granted) ∈ c.calls := by
    rw [call?, List.lookup_eq_some_iff] at hc
    obtain ⟨before, after, hcalls, -⟩ := hc
    rw [hcalls]
    exact List.mem_append_right _ List.mem_cons_self
  cases granted with
  | false => exact h.starved _ hmem rfl
  | true =>
    rw [Cache.poll, hc] at hp
    dsimp only at hp
    split at hp
    · cases hp
    · cases hp

/-! ### The end -/

/-- Removes all entries with the shares they hold. -/
def clear (c : Cache α) : Cache α := c.entries.keys.foldl Cache.removeEntry c

lemma close_eq (c : Cache α) : c.close = ({ c with closed := true } : Cache α).clear := rfl

lemma get?_clear (c : Cache α) (slot : Slot) : c.clear.entries.get? slot = none := by
  rw [clear, get?_removeAll]
  split
  · rfl
  · next hnot => simpa [Ledger.mem_keys_iff] using hnot

lemma holds_clear (c : Cache α) (slot : Slot) : c.clear.holds slot = false := by
  rw [holds, get?_clear]
  rfl

lemma size_clear (c : Cache α) : c.clear.size = 0 := size_eq_zero (holds_clear c)

lemma Conserves.clear (h : Conserves n c) : Conserves n c.clear := h.removeAll _

lemma Conserves.close (h : Conserves n c) : Conserves n c.close := by
  have hclosed : Conserves n { c with closed := true } :=
    ⟨h.tickets, h.before, h.shares, h.starved, h.published⟩
  exact hclosed.clear

/-- No insertion is under way. -/
def Idle (c : Cache α) : Prop := ∀ x ∈ c.calls, x.2.share? = none

lemma Idle.inTransit (h : c.Idle) : c.inTransit = 0 :=
  List.countP_eq_zero.2 fun x hx => by simp [h x hx]

lemma Idle.removeEntry (h : c.Idle) (slot : Slot) : (c.removeEntry slot).Idle := by
  have hdetached : ∀ x ∈ c.calls.map (detach slot), x.2.share? = none := by
    intro x hx
    obtain ⟨y, hy, rfl⟩ := List.mem_map.1 hx
    rw [(detach_keeps slot y).2]
    exact h y hy
  unfold Cache.removeEntry
  split
  · exact h
  · dsimp only
    split
    · unfold Cache.release
      split
      · next calls hg =>
        obtain ⟨-, -, x, hx, hshare⟩ := grant_eq_some hg
        rw [hdetached x hx] at hshare
        cases hshare
      · exact hdetached
    · exact hdetached

lemma Idle.clear (h : c.Idle) : c.clear.Idle := by
  have hall (slots : List Slot) (c : Cache α) (hc : c.Idle) :
      (slots.foldl Cache.removeEntry c).Idle := by
    induction slots generalizing c with
    | nil => exact hc
    | cons slot slots ih => exact ih _ (hc.removeEntry slot)
  exact hall _ c h

end EpochRewards.Cache
