import EpochRewards.Proofs.Tickets
import EpochRewards.Proofs.Traffic

/-!
What a cache shows of one slot.

Operations on other slots leave the view of a slot alone, so the moves of a cache that stays open
are, slot by slot, moves of views. A view has no tickets and no shares.
-/

namespace EpochRewards.Cache

variable {α : Type}

/-- What a call that waits for a slot has seen of it, and whether that is still there. -/
def Call.glance? (s : Slot) : Call α → Option (Promise α × Bool)
  | .wait slot seen attached => if slot = s then some (seen, attached) else none
  | .insert .. => none

/-- What the waits for a slot have seen, the oldest first. -/
def waits (c : Cache α) (s : Slot) : List (Promise α × Bool) :=
  c.calls.filterMap fun x => x.2.glance? s

/-- What a wait has seen once a promise is told. -/
def told (p : Promise α) (w : Promise α × Bool) : Promise α × Bool := if w.2 then (p, true) else w

variable {c : Cache α} {slot s : Slot} {t : Ticket} {call : Call α}

/-! ### Waits -/

lemma waits_enter (c : Cache α) (call : Call α) (s : Slot) :
    (c.enter call).1.waits s = c.waits s ++ (call.glance? s).toList := by
  show (c.calls ++ [(c.nextTicket, call)]).filterMap _ = _
  rw [List.filterMap_append, List.filterMap_cons]
  cases call.glance? s <;> simp [waits]

lemma filterMap_grant {calls calls' : List (Ticket × Call α)} (h : grant calls = some calls')
    (s : Slot) : calls'.filterMap (fun x => x.2.glance? s)
      = calls.filterMap fun x => x.2.glance? s := by
  induction calls generalizing calls' with
  | nil => cases h
  | cons x calls ih =>
    unfold grant at h
    split at h
    · next he => cases he
    · next u slot a rest he =>
      cases h
      obtain ⟨rfl, rfl⟩ := List.cons_eq_cons.1 he
      rfl
    · next rest _ he =>
      obtain ⟨rfl, rfl⟩ := List.cons_eq_cons.1 he
      obtain ⟨granted, hg, rfl⟩ := Option.map_eq_some_iff.1 h
      rw [List.filterMap_cons, List.filterMap_cons, ih hg]

@[simp] lemma waits_release (c : Cache α) (s : Slot) : c.release.waits s = c.waits s := by
  unfold release
  split
  · next hg => exact filterMap_grant hg s
  · rfl

lemma glance?_tell (slot s : Slot) (p : Promise α) (x : Ticket × Call α) :
    (tell slot p x).2.glance? s
      = if s = slot then (x.2.glance? s).map (told p) else x.2.glance? s := by
  obtain ⟨t, call⟩ := x
  cases call with
  | insert => simp [tell, Call.glance?]
  | wait r seen attached =>
    by_cases hr : r = s
    · by_cases hs : s = slot <;> cases attached <;> simp [tell, Call.glance?, told, hr, hs]
    · cases attached <;> simp [tell, Call.glance?, hr]

lemma waits_setEntry (c : Cache α) (slot s : Slot) (e : Entry α) :
    (c.setEntry slot e).waits s
      = if s = slot then (c.waits s).map (told e.promise) else c.waits s := by
  show (c.calls.map (tell slot e.promise)).filterMap _ = _
  rw [List.filterMap_map]
  simp only [Function.comp_def, glance?_tell]
  split
  · rw [waits, List.map_filterMap]
  · rfl

lemma waits_publish (c : Cache α) (slot s : Slot) (a : α) :
    (c.publish slot a).waits s
      = if s = slot then (c.waits s).map (told (.ready a)) else c.waits s := by
  have hset := c.waits_setEntry slot s ⟨.ready a, true⟩
  unfold publish
  dsimp only
  split
  · rw [waits_release]
    exact hset
  · exact hset

lemma glance?_detach (slot s : Slot) (x : Ticket × Call α) :
    (detach slot x).2.glance? s
      = if s = slot then (x.2.glance? s).map (fun w => (w.1, false)) else x.2.glance? s := by
  obtain ⟨t, call⟩ := x
  cases call with
  | insert => simp [detach, Call.glance?]
  | wait r seen attached =>
    by_cases hr : r = s
    · by_cases hs : s = slot <;> simp [detach, Call.glance?, hr, hs]
    · simp [detach, Call.glance?, hr]

/-- A wait only loses its promise with an entry. -/
lemma waits_removeEntry (c : Cache α) (slot s : Slot) :
    (c.removeEntry slot).waits s = if s = slot then
      (c.waits s).map fun w => (w.1, w.2 && (c.entries.get? s).isNone) else c.waits s := by
  unfold removeEntry
  split
  · next hnone =>
    split
    · next hs =>
      rw [hs, hnone]
      simp
    · rfl
  · next e he =>
    have hdetached : ({ c with
        entries := c.entries.erase slot
        calls := c.calls.map (detach slot) } : Cache α).waits s = if s = slot then
          (c.waits s).map fun w => (w.1, w.2 && (c.entries.get? s).isNone) else c.waits s := by
      show (c.calls.map (detach slot)).filterMap _ = _
      rw [List.filterMap_map]
      simp only [Function.comp_def, glance?_detach]
      split
      · next hs => simp [waits, List.map_filterMap, hs, he]
      · rfl
    dsimp only
    split
    · rw [waits_release]
      exact hdetached
    · exact hdetached

/-- Of the waits for a slot a call that is forgotten takes its own out. -/
lemma waits_forget (hn : (c.calls.map (·.1)).Nodup) (hc : c.call? t = some call) (s : Slot) :
    ∃ before after, c.waits s = before ++ (call.glance? s).toList ++ after ∧
      (c.forget t).waits s = before ++ after := by
  rw [call?, List.lookup_eq_some_iff] at hc
  obtain ⟨before, after, hcalls, -⟩ := hc
  rw [hcalls, List.map_append, List.map_cons] at hn
  have hother := (List.nodup_cons.1 (List.nodup_middle.1 hn)).1
  rw [← List.map_append] at hother
  have hfilter : c.calls.filter (·.1 != t) = before ++ after := by
    have hkeep (x : Ticket × Call α) (hx : x ∈ before ++ after) : (x.1 != t) = true :=
      bne_iff_ne.2 fun he => hother (List.mem_map.2 ⟨x, hx, he⟩)
    rw [hcalls, List.filter_append, List.filter_cons_of_neg (by simp),
      List.filter_eq_self.2 fun x hx => hkeep x (List.mem_append_left _ hx),
      List.filter_eq_self.2 fun x hx => hkeep x (List.mem_append_right _ hx)]
  refine ⟨before.filterMap fun x => x.2.glance? s, after.filterMap fun x => x.2.glance? s, ?_, ?_⟩
  · rw [waits, hcalls, List.filterMap_append, List.filterMap_cons]
    cases call.glance? s <;> simp
  · show (c.calls.filter (·.1 != t)).filterMap _ = _
    rw [hfilter, List.filterMap_append]

lemma waits_forget_of_none (hn : (c.calls.map (·.1)).Nodup) (hc : c.call? t = some call)
    (hs : call.glance? s = none) : (c.forget t).waits s = c.waits s := by
  obtain ⟨before, after, hbefore, hafter⟩ := waits_forget hn hc s
  rw [hafter, hbefore, hs]
  simp

@[simp] lemma waits_drop (c : Cache α) (t : Ticket) (s : Slot) :
    (c.drop t).waits s = (c.forget t).waits s := by
  unfold drop
  split
  · exact waits_release ..
  · rfl

@[simp] lemma waits_beginInsert (c : Cache α) (slot : Slot) (a : α) (s : Slot) :
    (c.beginInsert slot a).1.waits s = c.waits s := by
  unfold beginInsert
  split
  · exact (waits_enter ..).trans (List.append_nil _)
  · exact (waits_enter ..).trans (List.append_nil _)

lemma mem_waits {seen : Promise α} {attached : Bool}
    (hc : c.call? t = some (.wait s seen attached)) : (seen, attached) ∈ c.waits s :=
  List.mem_filterMap.2 ⟨_, mem_calls hc, if_pos rfl⟩

/-! ### Views -/

/-- What happens to a slot. -/
inductive Act (α : Type) where
  /-- somebody begins to wait -/
  | asked
  /-- a wait is given up -/
  | gaveUp
  /-- a value is published, or `none` will be -/
  | settled (value : Option α)
  | answered (answer : Answer α)
  deriving DecidableEq

/-- What is to be seen of one slot. -/
structure View (α : Type) where
  entry : Option (Entry α)
  waits : List (Promise α × Bool)
  /-- the promises seen by waits that have not removed the entry yet -/
  leaving : List (Promise α)

def View.holds (v : View α) : Bool := (v.entry.map (·.holdsShare)).getD false

def View.detached (v : View α) (ws : List (Promise α × Bool)) : List (Promise α × Bool) :=
  ws.map fun w => (w.1, w.2 && v.entry.isNone)

/-- What happens to a slot in a cache that is open, and what is seen of it then. -/
inductive View.Move (s : Slot) : View α → List (Act α) → View α → Prop
  | stay (v : View α) : Move s v [] v
  | askFirst {v : View α} (he : v.entry = none) :
    Move s v [.asked] { v with
      entry := some ⟨.pending, false⟩
      waits := v.waits.map (told .pending) ++ [(.pending, true)] }
  | ask {v : View α} {e : Entry α} (he : v.entry = some e) :
    Move s v [.asked] { v with waits := v.waits ++ [(e.promise, true)] }
  | giveUp {v : View α} {before after : List (Promise α × Bool)} {w : Promise α × Bool}
    (hw : v.waits = before ++ [w] ++ after) :
    Move s v [.gaveUp] { v with waits := before ++ after }
  | publish (v : View α) (a : α) :
    Move s v [.settled (some a)] { v with
      entry := some ⟨.ready a, true⟩
      waits := v.waits.map (told (.ready a)) }
  | mark (v : View α) :
    Move s v [.settled none] { v with
      entry := some ⟨.unavailable, v.holds⟩
      waits := v.waits.map (told .unavailable) }
  | see {v : View α} {before after : List (Promise α × Bool)} {seen : Promise α}
    {attached : Bool} (hw : v.waits = before ++ [(seen, attached)] ++ after)
    (hs : seen.isSettled = true) :
    Move s v [] { v with waits := before ++ after, leaving := v.leaving ++ [seen] }
  | leave {v : View α} {before after : List (Promise α)} {seen : Promise α}
    (hl : v.leaving = before ++ [seen] ++ after) :
    Move s v [.answered (delivery s seen)]
      ⟨none, v.detached v.waits, before ++ after⟩
  | answer {v : View α} {before after : List (Promise α × Bool)} {seen : Promise α}
    {attached : Bool} (hw : v.waits = before ++ [(seen, attached)] ++ after)
    (hs : seen.isSettled = true) :
    Move s v [.answered (delivery s seen)] ⟨none, v.detached (before ++ after), v.leaving⟩
  | refuse {v : View α} {before after : List (Promise α × Bool)} {seen : Promise α}
    (hw : v.waits = before ++ [(seen, false)] ++ after) :
    Move s v [.answered (.refused .closed)] { v with waits := before ++ after }

/-- What happens to a slot, out of what happens to all. -/
def actsOn (s : Slot) (log : List (Slot × Act α)) : List (Act α) :=
  log.filterMap fun (slot, act) => if slot = s then some act else none

/-- What it means to a slot that a call is answered. -/
def Call.acts : Call α → Option (Answer α) → List (Slot × Act α)
  | .insert slot a _, some .inserted => [(slot, .settled (some a))]
  | .wait slot .., some answer => [(slot, .answered answer)]
  | _, _ => []

/-- What it means to a slot that a call is given up. -/
def Call.abandoned : Call α → List (Slot × Act α)
  | .wait slot .. => [(slot, .gaveUp)]
  | .insert .. => []

namespace Traffic

/-- A step of the tasks other than closing the cache, and what it means to the slots. -/
inductive Move : Traffic α → List (Slot × Act α) → Traffic α → Prop
  | beginInsert {x : Traffic α} (slot : Slot) (a : α) :
    Move x [] { x with cache := (x.cache.beginInsert slot a).1 }
  | beginWait {x : Traffic α} (slot : Slot) :
    Move x [(slot, .asked)] { x with cache := (x.cache.beginWait slot).1 }
  | poll {x : Traffic α} {t : Ticket} {call : Call α} (hc : x.cache.call? t = some call)
    (branch : Branch) :
    Move x (call.acts (x.cache.poll t branch).2) { x with
      cache := (x.cache.poll t branch).1
      events := x.events ++ call.events (x.cache.poll t branch).2 }
  | see {x : Traffic α} {t : Ticket} {slot : Slot} {seen : Promise α} {attached : Bool}
    (hc : x.cache.call? t = some (.wait slot seen attached)) (hs : seen.isSettled = true) :
    Move x [] { x with
      cache := x.cache.forget t
      leaving := x.leaving ++ [(slot, seen)] }
  | leave {x : Traffic α} {before after : List (Slot × Promise α)} {slot : Slot}
    {seen : Promise α} (hl : x.leaving = before ++ (slot, seen) :: after) :
    Move x [(slot, .answered (delivery slot seen))] {
      cache := x.cache.removeEntry slot
      leaving := before ++ after
      events := x.events ++ (Call.wait slot seen true).events (some (delivery slot seen)) }
  | drop {x : Traffic α} {t : Ticket} {call : Call α} (hc : x.cache.call? t = some call) :
    Move x call.abandoned { x with cache := x.cache.drop t }
  | markUnavailable {x : Traffic α} (slot : Slot) :
    Move x [(slot, .settled none)] { x with cache := x.cache.markUnavailable slot }

variable {x y : Traffic α} {log : List (Slot × Act α)}

lemma Move.step (h : Move x log y) : Step x y := by
  cases h with
  | beginInsert slot a => exact .beginInsert slot a
  | beginWait slot => exact .beginWait slot
  | poll hc branch => exact .poll hc branch
  | see hc hs => exact .see hc hs
  | leave hl => exact .leave hl
  | drop hc => exact .drop _
  | markUnavailable slot => exact .markUnavailable slot

def leavingFrom (x : Traffic α) (s : Slot) : List (Promise α) :=
  x.leaving.filterMap fun (slot, seen) => if slot = s then some seen else none

def view (x : Traffic α) (s : Slot) : View α :=
  ⟨x.cache.entries.get? s, x.cache.waits s, x.leavingFrom s⟩

lemma actsOn_singleton (slot s : Slot) (act : Act α) :
    actsOn s [(slot, act)] = if slot = s then [act] else [] := by
  by_cases h : slot = s <;> simp [actsOn, h]

section Seen

variable {slot s : Slot}

lemma view_congr (hentry : y.cache.entries.get? s = x.cache.entries.get? s)
    (hwaits : y.cache.waits s = x.cache.waits s) (hleaving : y.leavingFrom s = x.leavingFrom s) :
    y.view s = x.view s := by
  rw [view, hentry, hwaits, hleaving]
  rfl

/-- What happens elsewhere is not seen. -/
lemma view_stays (h : y.view s = x.view s) : View.Move s (x.view s) [] (y.view s) := by
  rw [h]
  exact .stay _

/-- Views that show the same are the same. -/
lemma view_move {v : View α} {acts : List (Act α)} {w : View α} (h : View.Move s v acts w)
    (hentry : y.cache.entries.get? s = w.entry) (hwaits : y.cache.waits s = w.waits)
    (hleaving : y.leavingFrom s = w.leaving) : View.Move s v acts (y.view s) := by
  rw [view, hentry, hwaits, hleaving]
  exact h

/-- What happens to a slot is a move of its view, if it leaves the other views alone. -/
lemma view_act {act : Act α} (h : View.Move slot (x.view slot) [act] (y.view slot))
    (helse : ∀ r, r ≠ slot → y.view r = x.view r) (s : Slot) :
    View.Move s (x.view s) (actsOn s [(slot, act)]) (y.view s) := by
  rw [actsOn_singleton]
  by_cases hs : slot = s
  · subst hs
    rw [if_pos rfl]
    exact h
  · rw [if_neg hs]
    exact view_stays (helse s (Ne.symm hs))

end Seen

lemma glance?_wait (slot s : Slot) (seen : Promise α) (attached : Bool) :
    (Call.wait slot seen attached).glance? s
      = if slot = s then some (seen, attached) else none := rfl

lemma view_beginWait (x : Traffic α) (slot s : Slot) :
    View.Move s (x.view s) (actsOn s [(slot, .asked)])
      (Traffic.view { x with cache := (x.cache.beginWait slot).1 } s) := by
  unfold beginWait
  split
  · next e he =>
    refine view_act ?_ (fun r hr => ?_) s
    · refine view_move (.ask he) rfl ?_ rfl
      rw [waits_enter, glance?_wait, if_pos rfl]
      rfl
    · refine view_congr rfl ?_ rfl
      rw [waits_enter, glance?_wait, if_neg (Ne.symm hr)]
      exact List.append_nil _
  · next hnone =>
    refine view_act ?_ (fun r hr => ?_) s
    · refine view_move (.askFirst hnone) ((get?_setEntry ..).trans (if_pos rfl)) ?_ rfl
      rw [waits_enter, glance?_wait, if_pos rfl, waits_setEntry, if_pos rfl]
      rfl
    · refine view_congr ((get?_setEntry ..).trans (if_neg hr)) ?_ rfl
      rw [waits_enter, glance?_wait, if_neg (Ne.symm hr), waits_setEntry, if_neg hr]
      exact List.append_nil _

lemma view_publish (hn : (x.cache.calls.map (·.1)).Nodup) {t : Ticket} {slot : Slot} {a : α}
    {granted : Bool} (hc : x.cache.call? t = some (.insert slot a granted))
    (events : List (Event α)) (s : Slot) :
    View.Move s (x.view s) (actsOn s [(slot, .settled (some a))])
      (Traffic.view { x with cache := (x.cache.forget t).publish slot a, events } s) := by
  have hforget (r : Slot) : (x.cache.forget t).waits r = x.cache.waits r :=
    waits_forget_of_none hn hc rfl
  refine view_act ?_ (fun r hr => ?_) s
  · refine view_move (.publish _ a) ((get?_publish ..).trans (if_pos rfl)) ?_ rfl
    rw [waits_publish, if_pos rfl, hforget]
    rfl
  · refine view_congr ((get?_publish ..).trans (if_neg hr)) ?_ rfl
    rw [waits_publish, if_neg hr, hforget]

lemma view_markUnavailable (x : Traffic α) (slot s : Slot) :
    View.Move s (x.view s) (actsOn s [(slot, .settled none)])
      (Traffic.view { x with cache := x.cache.markUnavailable slot } s) := by
  refine view_act ?_ (fun r hr => ?_) s
  · exact view_move (.mark _) ((get?_setEntry ..).trans (if_pos rfl))
      ((waits_setEntry ..).trans (if_pos rfl)) rfl
  · exact view_congr ((get?_setEntry ..).trans (if_neg hr))
      ((waits_setEntry ..).trans (if_neg hr)) rfl

section Wait

variable {t : Ticket} {slot : Slot} {seen : Promise α} {attached : Bool}
  (hn : (x.cache.calls.map (·.1)).Nodup) (hc : x.cache.call? t = some (.wait slot seen attached))
include hn hc

lemma waits_forget_of_ne {s : Slot} (hs : s ≠ slot) :
    (x.cache.forget t).waits s = x.cache.waits s :=
  waits_forget_of_none hn hc (if_neg (Ne.symm hs))

lemma waits_forget_self : ∃ before after,
    x.cache.waits slot = before ++ [(seen, attached)] ++ after ∧
      (x.cache.forget t).waits slot = before ++ after := by
  obtain ⟨before, after, hbefore, hafter⟩ := waits_forget hn hc slot
  rw [glance?_wait, if_pos rfl] at hbefore
  exact ⟨before, after, hbefore, hafter⟩

lemma view_answer (hseen : seen.isSettled = true) (events : List (Event α)) (s : Slot) :
    View.Move s (x.view s) (actsOn s [(slot, .answered (delivery slot seen))])
      (Traffic.view { x with cache := (x.cache.forget t).removeEntry slot, events } s) := by
  obtain ⟨before, after, hbefore, hafter⟩ := waits_forget_self hn hc
  refine view_act ?_ (fun r hr => ?_) s
  · refine view_move (.answer hbefore hseen) ((get?_removeEntry ..).trans (if_pos rfl)) ?_ rfl
    rw [waits_removeEntry, if_pos rfl, hafter]
    rfl
  · refine view_congr ((get?_removeEntry ..).trans (if_neg hr)) ?_ rfl
    rw [waits_removeEntry, if_neg hr, waits_forget_of_ne hn hc hr]

lemma view_see (hseen : seen.isSettled = true) (s : Slot) :
    View.Move s (x.view s) [] (Traffic.view { x with
      cache := x.cache.forget t
      leaving := x.leaving ++ [(slot, seen)] } s) := by
  have hleaving : leavingFrom { x with
      cache := x.cache.forget t
      leaving := x.leaving ++ [(slot, seen)] } s
      = x.leavingFrom s ++ if slot = s then [seen] else [] := by
    by_cases hs : slot = s <;> simp [leavingFrom, hs]
  by_cases hs : slot = s
  · subst hs
    obtain ⟨before, after, hbefore, hafter⟩ := waits_forget_self hn hc
    rw [if_pos rfl] at hleaving
    exact view_move (.see hbefore hseen) rfl hafter hleaving
  · rw [if_neg hs, List.append_nil] at hleaving
    exact view_stays (view_congr rfl (waits_forget_of_ne hn hc (Ne.symm hs)) hleaving)

/-- A wait that is taken out without a promise leaves everything else in place. -/
lemma view_drop {act : Act α} (hact : ∀ before after,
      (x.view slot).waits = before ++ [(seen, attached)] ++ after → View.Move slot (x.view slot)
        [act] ⟨(x.view slot).entry, before ++ after, (x.view slot).leaving⟩)
    (events : List (Event α)) (s : Slot) :
    View.Move s (x.view s) (actsOn s [(slot, act)])
      (Traffic.view { x with cache := x.cache.drop t, events } s) := by
  obtain ⟨before, after, hbefore, hafter⟩ := waits_forget_self hn hc
  have hentries (r : Slot) : (x.cache.drop t).entries.get? r = x.cache.entries.get? r := by
    rw [entries_drop]
  refine view_act ?_ (fun r hr => ?_) s
  · exact view_move (hact before after hbefore) (hentries slot) ((waits_drop ..).trans hafter) rfl
  · exact view_congr (hentries r) ((waits_drop ..).trans (waits_forget_of_ne hn hc hr)) rfl

end Wait

lemma view_leave {before after : List (Slot × Promise α)} {slot : Slot} {seen : Promise α}
    (hl : x.leaving = before ++ (slot, seen) :: after) (events : List (Event α)) (s : Slot) :
    View.Move s (x.view s) (actsOn s [(slot, .answered (delivery slot seen))])
      (Traffic.view ⟨x.cache.removeEntry slot, before ++ after, events⟩ s) := by
  have hafter (r : Slot) : leavingFrom ⟨x.cache.removeEntry slot, before ++ after, events⟩ r
      = before.filterMap (fun (slot, seen) => if slot = r then some seen else none)
        ++ after.filterMap fun (slot, seen) => if slot = r then some seen else none :=
    List.filterMap_append
  refine view_act ?_ (fun r hr => ?_) s
  · refine view_move (.leave ?_) ((get?_removeEntry ..).trans (if_pos rfl))
      ((waits_removeEntry ..).trans (if_pos rfl)) (hafter slot)
    show x.leavingFrom slot = _
    simp [leavingFrom, hl]
  · refine view_congr ((get?_removeEntry ..).trans (if_neg hr))
      ((waits_removeEntry ..).trans (if_neg hr)) ?_
    rw [hafter]
    simp [leavingFrom, hl, Ne.symm hr]

/-- **A cache is made of its slots.** While it is open, whatever is done shows at one slot and
nowhere else. -/
theorem Move.view (h : Move x log y) (hopen : x.cache.closed = false)
    (hn : (x.cache.calls.map (·.1)).Nodup) (s : Slot) :
    View.Move s (x.view s) (actsOn s log) (y.view s) := by
  cases h with
  | beginInsert slot a =>
    exact view_stays (view_congr (by rw [entries_beginInsert]) (waits_beginInsert ..) rfl)
  | beginWait slot => exact view_beginWait x slot s
  | @poll t call hc branch =>
    rcases x.cache.poll_cases t branch with
      hp | ⟨hgone, hp⟩ | ⟨slot, a, hc', hp⟩ | ⟨slot, seen, attached, hc', hseen, hp⟩
    · rw [hp]
      have hnothing : call.acts none = [] := by cases call <;> rfl
      rw [hnothing]
      exact view_stays rfl
    · rw [hopen] at hgone
      obtain ⟨slot, seen, hc'⟩ := hgone.resolve_left Bool.false_ne_true
      cases hc.symm.trans hc'
      rw [hp]
      exact view_drop hn hc (fun _ _ => .refuse) _ s
    · cases hc.symm.trans hc'
      rw [hp]
      exact view_publish hn hc _ s
    · cases hc.symm.trans hc'
      rw [hp]
      exact view_answer hn hc hseen _ s
  | see hc hs => exact view_see hn hc hs s
  | leave hl => exact view_leave hl _ s
  | @drop t call hc =>
    cases call with
    | wait slot seen attached => exact view_drop hn hc (fun _ _ => .giveUp) _ s
    | insert slot a granted =>
      refine view_stays (view_congr ?_ ?_ rfl)
      · rw [entries_drop]
      · exact (waits_drop ..).trans (waits_forget_of_none hn hc rfl)
  | markUnavailable slot => exact view_markUnavailable x slot s

lemma Move.closed (h : Move x log y) : y.cache.closed = x.cache.closed := by
  cases h with
  | beginInsert slot a => exact closed_beginInsert ..
  | beginWait slot => exact closed_beginWait ..
  | poll hc branch => exact closed_poll ..
  | see hc hs => rfl
  | leave hl => exact closed_removeEntry ..
  | drop hc => exact closed_drop ..
  | markUnavailable slot => rfl

end Traffic

end EpochRewards.Cache
