import EpochRewards.Proofs.Downloads

/-!
Why downloads end.

Between two moves the cache holds what is settled and not taken yet. The assembling party can
therefore go on as soon as the outcome it waits for is settled, and the fetching party only waits
for a share while one of the outcomes to be taken holds it.
-/

namespace EpochRewards

namespace Cache

variable {α : Type} {ready ready' : Ready α} {slot : Slot} {x : Option α}

/-- With one outcome for each slot the order of the outcomes does not matter. -/
lemma lookup_perm (hn : (ready.map (·.1)).Nodup) (hp : ready.Perm ready') (slot : Slot) :
    ready'.lookup slot = ready.lookup slot := by
  have hn' : (ready'.map (·.1)).Nodup := (hp.map _).nodup_iff.1 hn
  cases hx : ready.lookup slot with
  | none =>
    rw [lookup_eq_none_iff] at hx ⊢
    rwa [← (hp.map (·.1)).mem_iff]
  | some x =>
    rw [List.lookup_eq_some_iff] at hx
    obtain ⟨before, after, rfl, -⟩ := hx
    refine lookup_of_mem hn' (hp.mem_iff.1 ?_)
    exact List.mem_append_right _ List.mem_cons_self

lemma Relays.perm {capacity : Nat} {ins : Option (Insertion α)} {await : Option Await}
    {c : Cache α} (h : Relays capacity ready ins await c) (hn : (ready.map (·.1)).Nodup)
    (hp : ready.Perm ready') : Relays capacity ready' ins await c := by
  have hlookup := lookup_perm hn hp
  have hwaits : waitCalls ready' await = waitCalls ready await := by
    cases await with
    | none => rfl
    | some w => simp only [waitCalls, promiseOf, hlookup]
  refine ⟨h.isOpen, fun s => ?_, ?_, h.before, h.apart, ?_, h.starved⟩
  · rw [h.entries, entryOf, entryOf, hlookup]
  · rw [hwaits]
    exact h.calls
  · rw [← hp.countP_eq]
    exact h.shares

end Cache

namespace Download

/-- Settled outcomes by the slots they are handed over under. -/
def bySlot (o : Order) (xs : Outcomes) : Cache.Ready Snapshot :=
  xs.map fun x => (o.network.terminalSlot x.1, x.2)

/-- The settled outcomes that are not taken yet. -/
def ready (d : Download) (settled : Outcomes) : Outcomes := settled.filter fun x => x.1 ∈ d.left

def insertion (o : Order) (granted : Bool) (coming : Option (Epoch × Snapshot)) (d : Download) :
    Option (Cache.Insertion Snapshot) := do
  let t ← d.inserting
  let (e, s) ← coming
  return ⟨t, o.network.terminalSlot e, s, granted⟩

/-- A download of which some outcomes have been settled, in any order, and one snapshot may be on
its way into the cache. -/
structure Delivering (o : Order) (capacity : Nat) (settled : Outcomes)
    (coming : Option (Epoch × Snapshot)) (d : Download) : Prop where
  once : (settled.map (·.1) ++ coming.toList.map (·.1)).Nodup
  within : ∀ e ∈ settled.map (·.1) ++ coming.toList.map (·.1), e ∈ o.downloads
  unsettled : ∀ e ∈ o.downloads, e ∉ settled.map (·.1) → e ∈ d.left
  remains : d.left.Sublist o.downloads
  inserting : d.inserting.isSome = coming.isSome
  relays : ∃ granted, Cache.Relays capacity (bySlot o (d.ready settled))
    (d.insertion o granted coming) (d.await o) d.cache

variable {o : Order} {capacity : Nat} {settled : Outcomes} {coming : Option (Epoch × Snapshot)}
  {d d' : Download} {branch : Cache.Branch} {e : Epoch} {s : Snapshot}

lemma delivering_start (capacity : Nat) (requests : Requests) :
    Delivering o capacity [] none (start o.range capacity requests) where
  once := List.nodup_nil
  within := nofun
  unsettled _ he _ := he
  remains := .refl _
  inserting := rfl
  relays := ⟨false, Cache.relays_ofCapacity⟩

lemma slots_bySlot (o : Order) (xs : Outcomes) :
    (bySlot o xs).map (·.1) = xs.map fun x => o.network.terminalSlot x.1 := by
  rw [bySlot, List.map_map]
  rfl

lemma insertion_of_idle {granted : Bool} (h : d.inserting = none) :
    d.insertion o granted coming = none := by
  rw [insertion, h]
  rfl

lemma regrant_insertion (o : Order) (granted returned : Bool) (coming : Option (Epoch × Snapshot))
    (d : Download) : Cache.regrant (d.insertion o granted coming) returned
      = d.insertion o (granted || returned) coming := by
  unfold insertion
  cases d.inserting <;> cases coming <;> rfl

/-! ### Settling -/

section Settling

variable (hd : (o.downloads.map o.network.terminalSlot).Nodup)
include hd

/-- Outcomes that are settled have slots of their own. -/
lemma Delivering.slot_inj (h : Delivering o capacity settled coming d) {x : Epoch × Option Snapshot}
    (hx : x ∈ settled) (he : e ∈ o.downloads)
    (hs : o.network.terminalSlot x.1 = o.network.terminalSlot e) : x.1 = e := by
  have hxd : x.1 ∈ o.downloads :=
    h.within _ (List.mem_append_left _ (List.mem_map.2 ⟨x, hx, rfl⟩))
  exact List.inj_on_of_nodup_map hd hxd he hs

lemma Delivering.nodup_slots (h : Delivering o capacity settled coming d) :
    ((bySlot o (d.ready settled)).map (·.1)).Nodup := by
  have hsettled : (settled.map (·.1)).Nodup := (List.nodup_append.1 h.once).1
  have hready : ((d.ready settled).map (·.1)).Nodup := hsettled.sublist (List.filter_sublist.map _)
  rw [slots_bySlot, ← Function.comp_def, ← List.map_map]
  refine List.Nodup.map_on (fun x hx y hy hxy => ?_) hready
  obtain ⟨x', hx', rfl⟩ := List.mem_map.1 hx
  obtain ⟨y', hy', rfl⟩ := List.mem_map.1 hy
  have hyd : y'.1 ∈ o.downloads :=
    h.within _ (List.mem_append_left _ (List.mem_map.2 ⟨y', (List.mem_filter.1 hy').1, rfl⟩))
  exact h.slot_inj hd (List.mem_filter.1 hx').1 hyd hxy

/-- No settled outcome is for the slot of one that is not settled. -/
lemma Delivering.vacant (h : Delivering o capacity settled coming d) (he : e ∈ o.downloads)
    (hn : e ∉ settled.map (·.1)) :
    o.network.terminalSlot e ∉ (bySlot o (d.ready settled)).map (·.1) := by
  rw [slots_bySlot]
  intro hslot
  obtain ⟨x, hx, hs⟩ := List.mem_map.1 hslot
  have hxs := (List.mem_filter.1 hx).1
  exact hn (List.mem_map.2 ⟨x, hxs, h.slot_inj hd hxs he hs⟩)

omit hd in
/-- A newly settled outcome is the last one to be taken of those that are settled. -/
lemma Delivering.ready_append (h : Delivering o capacity settled coming d) (he : e ∈ o.downloads)
    (hn : e ∉ settled.map (·.1)) (x : Option Snapshot) :
    bySlot o (d.ready (settled ++ [(e, x)]))
      = bySlot o (d.ready settled) ++ [(o.network.terminalSlot e, x)] := by
  have hleft : e ∈ d.left := h.unsettled e he hn
  rw [ready, List.filter_append, List.filter_cons_of_pos (by simpa using hleft), List.filter_nil,
    bySlot, List.map_append]
  rfl

omit hd in
lemma Delivering.coming_none (h : Delivering o capacity settled coming d) (hi : d.inserting = none) :
    coming = none := by
  have hsome := h.inserting
  rw [hi] at hsome
  exact Option.isNone_iff_eq_none.1 (by simpa using hsome.symm)

omit hd in
lemma Delivering.begin (h : Delivering o capacity settled coming d) (hi : d.inserting = none)
    (he : e ∈ o.downloads) (hn : e ∉ settled.map (·.1)) (toFetch : List Epoch) (requests : Requests) :
    Delivering o capacity settled (some (e, s)) { d with
      toFetch, requests
      cache := (d.cache.beginInsert (o.network.terminalSlot e) s).1
      inserting := some (d.cache.beginInsert (o.network.terminalSlot e) s).2 } := by
  have hc := h.coming_none hi
  subst hc
  have hsettled : (settled.map (·.1)).Nodup := (List.nodup_append.1 h.once).1
  have hwithin := h.within
  obtain ⟨granted, hr⟩ := h.relays
  rw [insertion_of_idle hi] at hr
  obtain ⟨g, hins⟩ := Cache.relays_beginInsert hr (o.network.terminalSlot e) s
  refine ⟨?_, fun x hx => ?_, h.unsettled, h.remains, rfl, g, hins⟩
  · show (settled.map (·.1) ++ [e]).Nodup
    rw [List.nodup_append]
    refine ⟨hsettled, List.nodup_singleton e, fun x hx y hy hxy => hn ?_⟩
    rwa [← List.mem_singleton.1 hy, ← hxy]
  · rcases List.mem_append.1 hx with hx | hx
    · exact hwithin x (List.mem_append_left _ hx)
    · have hxe : x = e := List.mem_singleton.1 hx
      rwa [hxe]

omit hd in
lemma Delivering.coming_open (h : Delivering o capacity settled (some (e, s)) d) :
    e ∈ o.downloads ∧ e ∉ settled.map (·.1) := by
  refine ⟨h.within e (List.mem_append_right _ List.mem_cons_self), fun he => ?_⟩
  exact (List.nodup_append.1 h.once).2.2 e he e List.mem_cons_self rfl

omit hd in
lemma insertion_of_inserting {t : Cache.Ticket} {granted : Bool} (hi : d.inserting = some t) :
    d.insertion o granted (some (e, s)) = some ⟨t, o.network.terminalSlot e, s, granted⟩ := by
  rw [insertion, hi]
  rfl

/-- Without a share the insertion waits, with one it settles its outcome. -/
lemma Delivering.publish {t : Cache.Ticket} {cache : Cache Snapshot}
    {answer : Cache.Answer Snapshot} (h : Delivering o capacity settled (some (e, s)) d)
    (hi : d.inserting = some t) (hp : d.cache.poll t branch = (cache, some answer)) :
    answer = .inserted ∧
      Delivering o capacity (settled ++ [(e, some s)]) none { d with cache, inserting := none } := by
  obtain ⟨he, hn⟩ := h.coming_open
  obtain ⟨granted, hr⟩ := h.relays
  rw [insertion_of_inserting hi] at hr
  have hpoll := Cache.relays_poll_insertion hr (h.vacant hd he hn) branch
  rw [hp] at hpoll
  cases granted with
  | false => exact absurd hpoll (by simp)
  | true =>
    simp only [if_true, Option.some.injEq] at hpoll
    refine ⟨hpoll.1, ?_, ?_, ?_, h.remains, rfl, false, ?_⟩
    · simpa using h.once
    · simpa using h.within
    · intro x hx hns
      refine h.unsettled x hx fun hm => hns ?_
      rw [List.map_append]
      exact List.mem_append_left _ hm
    · rw [insertion_of_idle rfl]
      have hready := h.ready_append he hn (some s)
      rw [← hready] at hpoll
      exact hpoll.2

/-- An insertion is answered while fewer snapshots are to be taken than there are shares. -/
lemma Delivering.inserted {t : Cache.Ticket} (h : Delivering o capacity settled (some (e, s)) d)
    (hi : d.inserting = some t) (hcap : (d.ready settled).countP (·.2.isSome) < capacity)
    (branch : Cache.Branch) : ∃ cache, d.cache.poll t branch = (cache, some .inserted) := by
  obtain ⟨he, hn⟩ := h.coming_open
  obtain ⟨granted, hr⟩ := h.relays
  rw [insertion_of_inserting hi] at hr
  cases granted with
  | false =>
    have hshares : d.cache.free + (bySlot o (d.ready settled)).countP (·.2.isSome) + 0 = capacity :=
      hr.shares
    -- An insertion that waits leaves no share free, so all shares would be with what is to be taken.
    have hready : (bySlot o (d.ready settled)).countP (·.2.isSome)
        = (d.ready settled).countP (·.2.isSome) := List.countP_map
    have hfree := hr.starved _ rfl rfl
    omega
  | true =>
    obtain ⟨hanswer, -⟩ := Cache.relays_poll_insertion hr (h.vacant hd he hn) branch
    exact ⟨_, Prod.ext rfl hanswer⟩

lemma Delivering.unavailable (h : Delivering o capacity settled coming d) (hi : d.inserting = none)
    (he : e ∈ o.downloads) (hn : e ∉ settled.map (·.1)) (toFetch : List Epoch) (requests : Requests) :
    Delivering o capacity (settled ++ [(e, none)]) none { d with
      toFetch, requests
      cache := d.cache.markUnavailable (o.network.terminalSlot e) } := by
  have hc := h.coming_none hi
  subst hc
  have hsettled : (settled.map (·.1)).Nodup := (List.nodup_append.1 h.once).1
  have hwithin := h.within
  obtain ⟨granted, hr⟩ := h.relays
  rw [insertion_of_idle hi] at hr
  have hmark := Cache.relays_markUnavailable hr (h.vacant hd he hn)
  rw [← h.ready_append he hn none] at hmark
  refine ⟨?_, fun x hx => ?_, fun x hx hns => ?_, h.remains, by rw [hi]; rfl, false, ?_⟩
  · rw [Option.toList_none, List.map_nil, List.append_nil, List.map_append, List.nodup_append]
    refine ⟨hsettled, List.nodup_singleton e, fun x hx y hy hxy => hn ?_⟩
    have hye : y = e := List.mem_singleton.1 hy
    rwa [← hye, ← hxy]
  · rw [Option.toList_none, List.map_nil, List.append_nil, List.map_append] at hx
    rcases List.mem_append.1 hx with hx | hx
    · exact hwithin x (List.mem_append_left _ hx)
    · have hxe : x = e := List.mem_singleton.1 hx
      rwa [hxe]
  · refine h.unsettled x hx fun hm => hns ?_
    rw [List.map_append]
    exact List.mem_append_left _ hm
  · rw [insertion_of_idle (by exact hi)]
    exact hmark

/-! ### Taking -/

omit hd in
/-- Of the settled outcomes, the one for `e` and those for the epochs after it. -/
lemma filter_settled_perm {rest : List Epoch} {x : Option Snapshot}
    (hn : (settled.map (·.1)).Nodup) (hx : (e, x) ∈ settled) (he : e ∉ rest) :
    (settled.filter fun y => y.1 ∈ e :: rest).Perm
      ((e, x) :: settled.filter fun y => y.1 ∈ rest) := by
  have hs : settled.Nodup := hn.of_map _
  have hrest : (e, x) ∉ settled.filter fun y => y.1 ∈ rest := by
    intro hm
    exact he (of_decide_eq_true (List.mem_filter.1 hm).2)
  refine (List.perm_ext_iff_of_nodup (hs.filter _)
    (List.nodup_cons.2 ⟨hrest, hs.filter _⟩)).2 fun y => ?_
  simp only [List.mem_cons, List.mem_filter, decide_eq_true_eq]
  constructor
  · rintro ⟨hy, hye | hyr⟩
    · exact .inl (List.inj_on_of_nodup_map hn hy hx hye)
    · exact .inr ⟨hy, hyr⟩
  · rintro (rfl | ⟨hy, hyr⟩)
    · exact ⟨hx, .inl rfl⟩
    · exact ⟨hy, .inr hyr⟩

omit hd in
/-- The cache and what is left determine the delivery. -/
lemma Delivering.congr (h : Delivering o capacity settled coming d) (hl : d'.left = d.left)
    (hi : d'.inserting = d.inserting) (hw : d'.await o = d.await o) (hc : d'.cache = d.cache) :
    Delivering o capacity settled coming d' := by
  obtain ⟨granted, hr⟩ := h.relays
  refine ⟨h.once, h.within, hl ▸ h.unsettled, hl ▸ h.remains, hi ▸ h.inserting, granted, ?_⟩
  rw [ready, hl, insertion, hi, hw, hc]
  exact hr

/-- What is waited for is the first outcome to be taken if it is settled. -/
lemma Delivering.first {t : Cache.Ticket} (h : Delivering o capacity settled coming d)
    (hw : d.waiting = some (e, t)) (he : e ∈ settled.map (·.1)) :
    ∃ x granted, o.network.terminalSlot e ∉
        (bySlot o (settled.filter fun y => y.1 ∈ d.toTake)).map (·.1) ∧
      Cache.Relays capacity
        ((o.network.terminalSlot e, x) :: bySlot o (settled.filter fun y => y.1 ∈ d.toTake))
        (d.insertion o granted coming) (some ⟨t, o.network.terminalSlot e⟩) d.cache := by
  have hleft : d.left = e :: d.toTake := by rw [left, hw]; rfl
  have hnodup : (e :: d.toTake).Nodup :=
    hleft ▸ (EpochSpan.nodup_toList o.range.downloadEpochs).sublist h.remains
  have hawait : d.await o = some ⟨t, o.network.terminalSlot e⟩ := by rw [await, hw]; rfl
  obtain ⟨⟨e', x⟩, hx, rfl⟩ := List.mem_map.1 he
  have hfst : (settled.map (·.1)).Nodup := (List.nodup_append.1 h.once).1
  have hfront := filter_settled_perm hfst hx (List.nodup_cons.1 hnodup).1
  have hready : d.ready settled = settled.filter fun y => y.1 ∈ e' :: d.toTake := by
    rw [ready, hleft]
  obtain ⟨granted, hr⟩ := h.relays
  have hslots := h.nodup_slots hd
  rw [hready] at hr hslots
  have hbySlot := hfront.map fun y => (o.network.terminalSlot y.1, y.2)
  have hslots' := ((hbySlot.map (·.1)).nodup_iff).1 hslots
  rw [hawait] at hr
  rw [List.map_cons, List.map_cons, List.nodup_cons] at hslots'
  exact ⟨x, granted, hslots'.1, hr.perm hslots hbySlot⟩

/-- An answer means that the outcome is settled, and takes it. -/
lemma Delivering.taken {t : Cache.Ticket} {cache : Cache Snapshot} {answer : Cache.Answer Snapshot}
    (h : Delivering o capacity settled coming d) (hw : d.waiting = some (e, t))
    (hp : d.cache.poll t branch = (cache, some answer)) :
    (∃ x, answer = Cache.answerOf (o.network.terminalSlot e) x) ∧
      Delivering o capacity settled coming { d with cache, waiting := none } := by
  have hleft : d.left = e :: d.toTake := by rw [left, hw]; rfl
  have hsub := h.remains
  rw [hleft] at hsub
  have he : e ∈ settled.map (·.1) := by
    by_contra hn
    obtain ⟨granted, hr⟩ := h.relays
    rw [await, hw] at hr
    have hvacant := h.vacant hd (hsub.subset List.mem_cons_self) hn
    have hnone := Cache.poll_unsettled (w := ⟨t, o.network.terminalSlot e⟩) hr hvacant branch
    rw [hnone] at hp
    cases hp
  obtain ⟨x, granted, hvacant, hr⟩ := h.first hd hw he
  obtain ⟨hanswer, hrel⟩ := Cache.relays_poll_await (w := ⟨t, o.network.terminalSlot e⟩) hr hvacant
    branch
  rw [hp] at hanswer hrel
  rw [regrant_insertion] at hrel
  refine ⟨⟨x, Option.some.inj hanswer⟩, h.once, h.within, fun y hy hns => ?_,
    (List.sublist_cons_self _ _).trans hsub, h.inserting, _, hrel⟩
  have hyleft := h.unsettled y hy hns
  rw [hleft] at hyleft
  rcases List.mem_cons.1 hyleft with rfl | hyrest
  · exact absurd he hns
  · exact hyrest

omit hd in
lemma waitAnswered_answerOf (o : Order) (d : Download) (e : Epoch) (slot : Slot)
    (x : Option Snapshot) : d.waitAnswered o e (Cache.answerOf slot x)
      = ({ d with waiting := none } : Download).slide o e x := by
  cases x <;> rfl

/-- A move of the assembling party, unless it ends the assembling. -/
lemma Delivering.assemble (h : Delivering o capacity settled coming d) (hr : d.received = true)
    (ha : d'.assembling = true) (hm : d.assemble o branch = some d') :
    Delivering o capacity settled coming d' := by
  unfold Download.assemble at hm
  split at hm
  · next task _ _ ho =>
    rw [send, if_neg (by rw [hr]; decide)] at hm
    split at hm
    · cases hm
      exact h.congr rfl rfl rfl rfl
    · cases hm
  · next _ e t ho hw =>
    split at hm
    · next cache answer hp =>
      cases hm
      obtain ⟨⟨x, rfl⟩, hcache⟩ := h.taken hd hw hp
      obtain ⟨history, outgoing, abandoned, progress, hslide⟩ :=
        slide_keeps o { d with cache, waiting := none } e x
      rw [waitAnswered_answerOf, hslide]
      exact hcache.congr rfl rfl rfl rfl
    · cases hm
  · next e rest ho hw ht =>
    cases hm
    have hleft : d.left = e :: rest := by rw [left, hw, ht]; rfl
    obtain ⟨granted, hrel⟩ := h.relays
    rw [await, hw] at hrel
    refine ⟨h.once, h.within, ?_, ?_, h.inserting, granted, ?_⟩
    · show ∀ x ∈ o.downloads, x ∉ settled.map (·.1) → x ∈ e :: rest
      exact hleft ▸ h.unsettled
    · show (e :: rest).Sublist o.downloads
      exact hleft ▸ h.remains
    · have hready : d.ready settled = settled.filter fun x => x.1 ∈ e :: rest := by
        rw [ready, hleft]
      rw [hready] at hrel
      exact Cache.relays_beginWait hrel (o.network.terminalSlot e)
  · next ho hw ht =>
    split at hm
    · cases hm
      cases ha
    · cases hm

/-! ### Ends -/

/-- What the assembling party waits for without end is not settled. -/
lemma Delivering.unsettled_of_stuck {t : Cache.Ticket}
    (h : Delivering o capacity settled coming d) (ho : d.outgoing = none)
    (hw : d.waiting = some (e, t)) (hm : d.assemble o branch = none) : e ∉ settled.map (·.1) := by
  intro he
  obtain ⟨x, granted, hvacant, hr⟩ := h.first hd hw he
  obtain ⟨hanswer, -⟩ := Cache.relays_poll_await (w := ⟨t, o.network.terminalSlot e⟩) hr hvacant
    branch
  simp only [Download.assemble, ho, hw] at hm
  split at hm
  · cases hm
  · next hp =>
    rw [hp] at hanswer
    cases hanswer

/-- An assembling party that cannot go on although its queue is empty has ended or waits for an
outcome that is not settled. -/
lemma Delivering.ended_or_waiting (h : d.assembling = true → Delivering o capacity settled coming d)
    (hr : d.received = true) (hq : d.queue = []) (hm : d.assemble o branch = none) :
    d.assembling = false ∨
      ∃ e t, d.waiting = some (e, t) ∧ d.outgoing = none ∧
        (d.assembling = true → e ∉ settled.map (·.1)) := by
  have ho : d.outgoing = none := by
    cases ho : d.outgoing with
    | none => rfl
    | some task => simp [Download.assemble, ho, send, hr, hq, queueCapacity] at hm
  cases hw : d.waiting with
  | some x =>
    obtain ⟨e, t⟩ := x
    exact .inr ⟨e, t, rfl, ho, fun ha => (h ha).unsettled_of_stuck hd ho hw hm⟩
  | none =>
    left
    cases ht : d.toTake with
    | cons e rest => simp [Download.assemble, ho, hw, ht] at hm
    | nil =>
      cases ha : d.assembling with
      | false => rfl
      | true => simp [Download.assemble, ho, hw, ht, ha] at hm

/-- With everything settled and its queue empty the assembling party only stops at its end. -/
theorem Delivering.returns (h : d.assembling = true → Delivering o capacity settled coming d)
    (hall : ∀ e ∈ o.downloads, e ∈ settled.map (·.1)) (hr : d.received = true) (hq : d.queue = [])
    (hm : d.assemble o branch = none) : d.assembling = false := by
  rcases Delivering.ended_or_waiting hd h hr hq hm with ha | ⟨e, t, hw, ho, hn⟩
  · exact ha
  · by_contra ha
    have hopen : d.assembling = true := by simpa using ha
    have hleft : e ∈ d.left := by rw [left, hw]; exact List.mem_cons_self
    exact hn hopen (hall e ((h hopen).remains.subset hleft))

end Settling

/-! ### Fetching in order -/

/-- A download whose own fetching party settles the outcomes, one epoch after another. -/
def Delivers (o : Order) (capacity : Nat) (d : Download) : Prop :=
  d.assembling = true → ∃ settled coming, Delivering o capacity settled coming d ∧
    settled.map (·.1) ++ coming.toList.map (·.1) ++ d.toFetch = o.downloads

lemma delivers_start (capacity : Nat) (requests : Requests) :
    Delivers o capacity (start o.range capacity requests) :=
  fun _ => ⟨[], none, delivering_start capacity requests, rfl⟩

section Fetching

variable (hd : (o.downloads.map o.network.terminalSlot).Nodup)
include hd

lemma fetchNext_delivers {rest : List Epoch} (hp : o.source.Placed) (h : Delivers o capacity d)
    (hi : d.inserting = none) (ht : d.toFetch = e :: rest) :
    Delivers o capacity (d.fetchNext o e rest) := by
  have hnext (ha : d.assembling = true) : ∃ settled,
      Delivering o capacity settled none d ∧ settled.map (·.1) ++ e :: rest = o.downloads ∧
        e ∈ o.downloads ∧ e ∉ settled.map (·.1) := by
    obtain ⟨settled, coming, hdel, horder⟩ := h ha
    have hc := hdel.coming_none hi
    subst hc
    rw [ht, Option.toList_none, List.map_nil, List.append_nil] at horder
    have hnodup : (settled.map (·.1) ++ e :: rest).Nodup :=
      horder ▸ EpochSpan.nodup_toList o.range.downloadEpochs
    refine ⟨settled, hdel, horder, ?_, fun he => ?_⟩
    · rw [← horder]
      exact List.mem_append_right _ List.mem_cons_self
    · exact (List.nodup_append.1 hnodup).2.2 e he e List.mem_cons_self rfl
  unfold fetchNext
  split
  · next s requests hs =>
    intro ha
    obtain ⟨settled, hdel, horder, he, hn⟩ := hnext ha
    have hslot : s.slot = o.network.terminalSlot e := by
      obtain ⟨i, state, hstate, hsnap⟩ := Source.snapshot_ok hs
      have := hp _ i state hstate
      rw [hsnap]
      exact this
    refine ⟨settled, some (e, s), ?_, ?_⟩
    · rw [hslot]
      exact hdel.begin hi he hn rest requests
    · rw [← horder, List.append_assoc]
      rfl
  · next err requests hs =>
    intro ha
    obtain ⟨settled, hdel, horder, he, hn⟩ := hnext ha
    refine ⟨settled ++ [(e, none)], none, hdel.unavailable hd hi he hn rest requests, ?_⟩
    rw [← horder]
    simp
  · exact nofun

lemma fetch_delivers (hp : o.source.Placed) (h : Delivers o capacity d)
    (hm : d.fetch o branch = some d') : Delivers o capacity d' := by
  unfold fetch at hm
  split at hm
  · next t hi =>
    split at hm
    · next cache answer hpoll =>
      cases hm
      intro ha
      have ha' : d.assembling = true := by cases answer <;> exact ha
      obtain ⟨settled, coming, hdel, horder⟩ := h ha'
      have hsome := hdel.inserting
      rw [hi] at hsome
      obtain ⟨⟨e, s⟩, rfl⟩ := Option.isSome_iff_exists.1 hsome.symm
      obtain ⟨rfl, hpub⟩ := hdel.publish hd hi hpoll
      refine ⟨settled ++ [(e, some s)], none, hpub, ?_⟩
      rw [← horder]
      simp [insertAnswered]
    · cases hm
  · next e rest hi ht =>
    cases hm
    exact fetchNext_delivers hd hp h hi ht
  · cases hm

lemma assemble_delivers (h : Delivers o capacity d) (hr : d.received = true)
    (hm : d.assemble o branch = some d') : Delivers o capacity d' := by
  intro ha
  obtain ⟨settled, coming, hdel, horder⟩ := h ((assemble_keeps hm).2.2.2.2 ha)
  refine ⟨settled, coming, hdel.assemble hd hr ha hm, ?_⟩
  rw [(assemble_keeps hm).1]
  exact horder

lemma advance_delivers {p : Party} (hp : o.source.Placed) (h : Delivers o capacity d)
    (hr : d.received = true) (hm : d.advance o branch p = some d') : Delivers o capacity d' := by
  cases p with
  | fetcher => exact fetch_delivers hd hp h hm
  | assembler => exact assemble_delivers hd h hr hm

omit hd in
/-- It does not matter to the delivery what is received and counted. -/
lemma Delivers.served (h : Delivers o capacity d) (queue : List EpochTask) (progress : Progress) :
    Delivers o capacity { d with queue, progress } := by
  intro ha
  obtain ⟨settled, coming, hdel, horder⟩ := h ha
  exact ⟨settled, coming, hdel.congr rfl rfl rfl rfl, horder⟩

omit hd in
/-- When outcomes are settled in order and the first one to be taken is not settled, then all that
are settled have been taken. -/
lemma ready_eq_nil {rest later : List Epoch} (hleft : d.left = e :: rest)
    (hsub : (e :: rest).Sublist o.downloads) (horder : o.downloads = settled.map (·.1) ++ later)
    (hn : e ∉ settled.map (·.1)) (he : e ∈ o.downloads) : d.ready settled = [] := by
  have hascending : o.downloads.Pairwise (· < ·) := EpochSpan.pairwise_toList _
  have hafter := (List.pairwise_cons.1 (hascending.sublist hsub)).1
  rw [horder] at he hascending
  have hlater : e ∈ later := (List.mem_append.1 he).resolve_left hn
  rw [ready, List.filter_eq_nil_iff]
  intro x hx hxleft
  have hxs : x.1 ∈ settled.map (·.1) := List.mem_map.2 ⟨x, hx, rfl⟩
  have hlt : x.1 < e := (List.pairwise_append.1 hascending).2.2 x.1 hxs e hlater
  rw [hleft, decide_eq_true_eq] at hxleft
  rcases List.mem_cons.1 hxleft with hxe | hxe
  · exact Nat.ne_of_lt hlt hxe
  · exact Nat.lt_asymm hlt (hafter _ hxe)

/-- Once the fetching party cannot go on either, the download has ended. -/
theorem Delivers.ended (h : Delivers o capacity d) (hcap : 0 < capacity) (hr : d.received = true)
    (hq : d.queue = []) (hf : d.fetch o branch = none) (hm : d.assemble o branch = none) :
    d.assembling = false := by
  by_contra ha
  have hopen : d.assembling = true := by simpa using ha
  obtain ⟨settled, coming, hdel, horder⟩ := h hopen
  have hwaiting := Delivering.ended_or_waiting hd (fun _ => hdel) hr hq hm
  rcases hwaiting with hended | ⟨e, t, hw, ho, hn⟩
  · exact ha hended
  have hunsettled := hn hopen
  have hleft : d.left = e :: d.toTake := by rw [left, hw]; rfl
  have hsub := hdel.remains
  rw [hleft] at hsub
  have he : e ∈ o.downloads := hsub.subset List.mem_cons_self
  cases hi : d.inserting with
  | none =>
    have hc := hdel.coming_none hi
    subst hc
    have ht : d.toFetch = [] := by
      cases ht : d.toFetch with
      | nil => rfl
      | cons x rest => simp [fetch, hi, ht] at hf
    rw [ht, Option.toList_none, List.map_nil, List.append_nil, List.append_nil] at horder
    rw [← horder] at he
    exact hunsettled he
  | some t' =>
    have hsome := hdel.inserting
    rw [hi] at hsome
    obtain ⟨⟨e', s⟩, rfl⟩ := Option.isSome_iff_exists.1 hsome.symm
    -- The cache holds nothing to be taken, so its shares are free and the insertion is answered.
    rw [List.append_assoc] at horder
    have hnone : d.ready settled = [] := ready_eq_nil hleft hsub horder.symm hunsettled he
    have hcount : (d.ready settled).countP (·.2.isSome) < capacity := by
      rw [hnone]
      exact hcap
    obtain ⟨cache, hpoll⟩ := hdel.inserted hd hi hcount branch
    simp [fetch, hi, hpoll] at hf

end Fetching

end Download

end EpochRewards
