import EpochRewards.Proofs.Downloads
import EpochRewards.Proofs.Tickets
import Mathlib.Logic.Relation

/-!
Downloads with their past.

Whatever a source answers, the fetching party settles the outcomes in order, each under the slot
that its snapshot carries, and the assembling party takes no more outcomes than were settled. The
assembling party is therefore never ahead, and finds the cache open for as long as it goes on.
-/

namespace EpochRewards

/-- The slot that an outcome is settled under: a snapshot carries its own. -/
def Order.key (o : Order) (y : Epoch × Option Snapshot) : Slot :=
  (y.2.map (·.slot)).getD (o.network.terminalSlot y.1)

namespace Download

/-- The epochs that the fetching party has moved past. -/
def passed (o : Order) (d : Download) : List Epoch :=
  o.downloads.take (o.downloads.length - (d.toFetch.length + d.inserting.toList.length))

/-- The epoch whose outcome a move of the assembling party takes out of the cache. -/
def takes (branch : Cache.Branch) (d : Download) : Option Epoch :=
  match d.outgoing, d.waiting with
  | none, some (e, t) =>
    match (d.cache.poll t branch).2 with
    | some (.taken _) | some (.refused (.unavailable _)) => some e
    | _ => none
  | _, _ => none

structure Trace where
  download : Download
  /-- the slots that have had a settled promise after some move -/
  settled : List Slot
  /-- the epochs whose outcomes were taken, the latest last -/
  taken : List Epoch

namespace Trace

def start (o : Order) (capacity : Nat) (requests : Requests) : Trace :=
  ⟨.start o.range capacity requests, [], []⟩

/-- A move of one of the parties or of the receiver. -/
inductive Step (o : Order) : Trace → Trace → Prop
  | fetch {x : Trace} {branch : Cache.Branch} {d : Download}
    (h : x.download.advance o branch .fetcher = some d) :
    Step o x { x with
      download := d
      settled := x.settled ++ d.cache.settledSlots }
  | assemble {x : Trace} {branch : Cache.Branch} {d : Download}
    (h : x.download.advance o branch .assembler = some d) :
    Step o x {
      download := d
      settled := x.settled ++ d.cache.settledSlots
      taken := x.taken ++ (x.download.takes branch).toList }
  | receive {x : Trace} {task : EpochTask} {d : Download}
    (h : x.download.receive? = some (task, d)) : Step o x { x with download := d }

def Steps (o : Order) : Trace → Trace → Prop := Relation.ReflTransGen (Step o)

/-- The traces of a download whose parties move in any order. -/
def Reached (o : Order) (capacity : Nat) (requests : Requests) (x : Trace) : Prop :=
  Steps o (start o capacity requests) x

/-- The fetching party has come to its end. -/
def Fetched (x : Trace) : Prop := x.download.inserting = none ∧ x.download.toFetch = []

/-- Both parties have come to their ends. -/
def Finished (x : Trace) : Prop := x.Fetched ∧ x.download.assembling = false

/-- A download that has not crashed, of which the outcomes `done` have been settled and the snapshot
`coming` is being inserted. -/
structure Past (o : Order) (capacity : Nat) (requests : Requests) (done : Outcomes)
    (coming : Option (Epoch × Snapshot)) (x : Trace) : Prop where
  conserves : x.download.cache.Conserves capacity
  received : x.download.received = true
  running : x.download.crash = none
  isOpen : x.download.cache.closed = !x.download.assembling
  order : done ++ coming.toList.map (fun y => (y.1, some y.2))
    ++ o.outcomes x.download.requests x.download.toFetch = o.outcomes requests o.downloads
  inserting : x.download.inserting.isSome = coming.isSome
  inserts : ∀ t e s, x.download.inserting = some t → coming = some (e, s) →
    x.download.cache.Inserts t s.slot s
  awaits : ∀ e t, x.download.waiting = some (e, t) →
    x.download.cache.Awaits t (o.network.terminalSlot e)
  taken : x.taken ++ x.download.left = o.downloads
  ended : x.download.assembling = false → x.download.left = [] ∧ x.download.outgoing = none
  shown : ∀ slot, x.download.cache.isSettled slot = true → slot ∈ done.map o.key
  settled : ∀ slot, slot ∈ x.settled ↔ slot ∈ done.map o.key
  /-- whatever is taken was settled before, once for each time -/
  count : x.download.cache.settledCount + x.taken.length ≤ done.length

variable {o : Order} {capacity : Nat} {requests : Requests} {done more : Outcomes}
  {coming : Option (Epoch × Snapshot)} {x y : Trace} {d : Download} {branch : Cache.Branch}
  {e : Epoch} {t : Cache.Ticket}

lemma past_start (o : Order) (capacity : Nat) (requests : Requests) :
    Past o capacity requests [] none (start o capacity requests) where
  conserves := Cache.conserves_ofCapacity capacity
  received := rfl
  running := rfl
  isOpen := rfl
  order := rfl
  inserting := rfl
  inserts := nofun
  awaits := nofun
  taken := rfl
  ended := nofun
  shown slot h := by cases h
  settled _ := Iff.rfl
  count := Nat.le_refl 0

/-! ### The fetching party is ahead -/

lemma Past.coming_none (h : x.Past o capacity requests done coming)
    (hi : x.download.inserting = none) : coming = none := by
  have hsome := h.inserting
  rw [hi] at hsome
  exact Option.isNone_iff_eq_none.1 (by simpa using hsome.symm)

lemma Past.epochs (h : x.Past o capacity requests done coming) :
    done.map (·.1) ++ coming.toList.map (·.1) ++ x.download.toFetch = o.downloads := by
  have horder := congrArg (List.map Prod.fst) h.order
  rw [List.map_append, List.map_append, Order.epochs_outcomes, Order.epochs_outcomes,
    List.map_map] at horder
  exact horder

lemma Past.length_inserting (h : x.Past o capacity requests done coming) :
    x.download.inserting.toList.length = coming.toList.length := by
  have hsome := h.inserting
  cases hi : x.download.inserting <;> cases hc : coming <;> rw [hi, hc] at hsome <;>
    first | rfl | cases hsome

/-- Once everything is taken there is nothing left to fetch. -/
lemma Past.fetched_of_taken (h : x.Past o capacity requests done coming)
    (hleft : x.download.left = []) : coming = none ∧ x.Fetched := by
  have hlength := congrArg List.length h.epochs
  have htaken := congrArg List.length h.taken
  have hinserting := h.length_inserting
  have hcount := h.count
  rw [hleft, List.append_nil] at htaken
  rw [List.length_append, List.length_append, List.length_map, List.length_map] at hlength
  have hfetch : x.download.toFetch.length = 0 := by omega
  have hcoming : coming.toList.length = 0 := by omega
  have hnone : coming = none := by
    cases coming with
    | none => rfl
    | some y => cases hcoming
  refine ⟨hnone, ?_, List.eq_nil_of_length_eq_zero hfetch⟩
  have hsame := h.inserting
  rw [hnone] at hsame
  exact Option.isNone_iff_eq_none.1 (by simpa using hsame)

lemma Past.fetched_of_ended (h : x.Past o capacity requests done coming)
    (ha : x.download.assembling = false) : x.Fetched := (h.fetched_of_taken (h.ended ha).1).2

lemma Past.assembling_of_inserting (h : x.Past o capacity requests done coming)
    (hi : x.download.inserting = some t) : x.download.assembling = true := by
  by_contra ha
  have hfetched := h.fetched_of_ended (by simpa using ha)
  cases hi.symm.trans hfetched.1

lemma Past.assembling_of_waiting (h : x.Past o capacity requests done coming)
    (hw : x.download.waiting = some (e, t)) : x.download.assembling = true := by
  by_contra ha
  have hleft := (h.ended (by simpa using ha)).1
  rw [left, hw] at hleft
  cases hleft

lemma mem_settled_append {settled : List Slot} {c : Cache Snapshot}
    (h : ∀ slot, slot ∈ settled ↔ slot ∈ done.map o.key)
    (hshown : ∀ slot, c.isSettled slot = true → slot ∈ (done ++ more).map o.key)
    (hmore : ∀ z ∈ more, c.isSettled (o.key z) = true) (slot : Slot) :
    slot ∈ settled ++ c.settledSlots ↔ slot ∈ (done ++ more).map o.key := by
  rw [List.mem_append, Cache.mem_settledSlots, h]
  constructor
  · rintro (hdone | hsettled)
    · rw [List.map_append]
      exact List.mem_append_left _ hdone
    · exact hshown slot hsettled
  · intro hall
    rw [List.map_append] at hall
    rcases List.mem_append.1 hall with hdone | hnew
    · exact .inl hdone
    · obtain ⟨z, hz, rfl⟩ := List.mem_map.1 hnew
      exact .inr (hmore z hz)

/-! ### Moves of the fetching party -/

/-- What the fetching party may do to the cache, settling `more` outcomes. -/
lemma Past.supply {coming' : Option (Epoch × Snapshot)} {toFetch : List Epoch}
    {inserting : Option Cache.Ticket} {q : Requests} {cache : Cache Snapshot}
    (h : x.Past o capacity requests done coming) (hconserves : cache.Conserves capacity)
    (hclosed : cache.closed = x.download.cache.closed)
    (horder : done ++ more ++ coming'.toList.map (fun y => (y.1, some y.2)) ++ o.outcomes q toFetch
      = o.outcomes requests o.downloads)
    (hinserting : inserting.isSome = coming'.isSome)
    (hinserts : ∀ t e s, inserting = some t → coming' = some (e, s) → cache.Inserts t s.slot s)
    (hawaits : ∀ t slot, x.download.cache.Awaits t slot → cache.Awaits t slot)
    (hshown : ∀ slot, cache.isSettled slot = true → slot ∈ (done ++ more).map o.key)
    (hmore : ∀ z ∈ more, cache.isSettled (o.key z) = true)
    (hcount : cache.settledCount ≤ x.download.cache.settledCount + more.length) :
    Past o capacity requests (done ++ more) coming' { x with
      download := { x.download with toFetch, inserting, requests := q, cache }
      settled := x.settled ++ cache.settledSlots } where
  conserves := hconserves
  received := h.received
  running := h.running
  isOpen := hclosed.trans h.isOpen
  order := horder
  inserting := hinserting
  inserts := hinserts
  awaits e t hw := hawaits t _ (h.awaits e t hw)
  taken := h.taken
  ended := h.ended
  shown := hshown
  settled := mem_settled_append h.settled hshown hmore
  count := by
    have hbefore := h.count
    rw [List.length_append]
    show cache.settledCount + x.taken.length ≤ done.length + more.length
    omega

/-- A snapshot that is fetched is on its way. -/
lemma Past.beginInsert {s : Snapshot} {q : Requests} {rest : List Epoch}
    (h : x.Past o capacity requests done none)
    (horder : done ++ (e, some s) :: o.outcomes q rest = o.outcomes requests o.downloads) :
    Past o capacity requests (done ++ []) (some (e, s)) { x with
      download := { x.download with
        toFetch := rest
        requests := q
        cache := (x.download.cache.beginInsert s.slot s).1
        inserting := some (x.download.cache.beginInsert s.slot s).2 }
      settled := x.settled ++ (x.download.cache.beginInsert s.slot s).1.settledSlots } := by
  refine h.supply (h.conserves.beginInsert s.slot s) (Cache.closed_beginInsert ..)
    (by simpa using horder) rfl ?_ (fun t slot hw => hw.beginInsert s.slot s) ?_ nofun
    (Nat.le_of_eq (Cache.settledCount_beginInsert x.download.cache s.slot s))
  · intro t e' s' ht hc
    cases ht
    cases hc
    exact Cache.inserts_beginInsert h.conserves s.slot s
  · intro slot hslot
    rw [Cache.isSettled_beginInsert] at hslot
    rw [List.append_nil]
    exact h.shown slot hslot

/-- An epoch without a snapshot is settled at once. -/
lemma Past.markUnavailable {q : Requests} {rest : List Epoch}
    (h : x.Past o capacity requests done none)
    (horder : done ++ (e, none) :: o.outcomes q rest = o.outcomes requests o.downloads) :
    Past o capacity requests (done ++ [(e, none)]) none { x with
      download := { x.download with
        toFetch := rest
        requests := q
        cache := x.download.cache.markUnavailable (o.network.terminalSlot e) }
      settled := x.settled
        ++ (x.download.cache.markUnavailable (o.network.terminalSlot e)).settledSlots } := by
  have hkey : o.key (e, none) = o.network.terminalSlot e := rfl
  refine h.supply (h.conserves.markUnavailable _) rfl (by simpa using horder) h.inserting nofun
    (fun t slot hw => hw.setEntry _ _) ?_ ?_ (Cache.settledCount_markUnavailable_le ..)
  · intro slot hslot
    rw [Cache.isSettled_markUnavailable] at hslot
    rw [List.map_append, List.mem_append]
    by_cases hs : slot = o.network.terminalSlot e
    · exact .inr (List.mem_singleton.2 hs)
    · rw [if_neg hs] at hslot
      exact .inl (h.shown slot hslot)
  · intro z hz
    rw [List.mem_singleton.1 hz, hkey, Cache.isSettled_markUnavailable, if_pos rfl]

/-- Fetching an epoch settles it, or starts to, unless it ends in a fault. -/
lemma Past.fetchNext {rest : List Epoch} (h : x.Past o capacity requests done coming)
    (hi : x.download.inserting = none) (ht : x.download.toFetch = e :: rest)
    (hd : d = x.download.fetchNext o e rest) :
    (∃ done coming, Past o capacity requests done coming { x with
      download := d
      settled := x.settled ++ d.cache.settledSlots }) ∨ d.crash.isSome ∧ o.Faults := by
  obtain rfl := h.coming_none hi
  have horder := h.order
  rw [ht, Order.outcomes, Option.toList_none, List.map_nil, List.append_nil] at horder
  unfold Download.fetchNext at hd
  split at hd
  · next s q hs =>
    subst hd
    rw [hs] at horder
    exact .inl ⟨_, _, h.beginInsert horder⟩
  · next err q hs =>
    subst hd
    rw [hs] at horder
    exact .inl ⟨_, _, h.markUnavailable horder⟩
  · next fault q hs =>
    subst hd
    refine .inr ⟨rfl, e, ?_, _, _, fault, hs⟩
    rw [← h.epochs, ht]
    exact List.mem_append_right _ List.mem_cons_self

/-- An insertion that is answered has settled its outcome, under the slot of the snapshot. -/
lemma Past.insertAnswered {cache : Cache Snapshot} {answer : Cache.Answer Snapshot}
    (h : x.Past o capacity requests done coming) (hi : x.download.inserting = some t)
    (hp : x.download.cache.poll t branch = (cache, some answer))
    (hd : d = ({ x.download with cache } : Download).insertAnswered answer) :
    ∃ done, Past o capacity requests done none { x with
      download := d
      settled := x.settled ++ d.cache.settledSlots } := by
  have hsome := h.inserting
  rw [hi] at hsome
  obtain ⟨⟨e, s⟩, rfl⟩ := Option.isSome_iff_exists.1 hsome.symm
  have hinserts := h.inserts t e s hi rfl
  obtain ⟨granted, hcall⟩ := id hinserts
  have hopen : x.download.cache.closed = false := by
    rw [h.isOpen, h.assembling_of_inserting hi]
    rfl
  have hconserves := h.conserves.poll t branch
  rcases x.download.cache.poll_cases t branch with
    hnone | ⟨hclosed | ⟨slot, seen, hwait⟩, -⟩ | ⟨slot, a, hc, hpublish⟩ |
      ⟨slot, seen, attached, hc, -, -⟩
  · cases hp.symm.trans hnone
  · cases hopen.symm.trans hclosed
  · cases hcall.symm.trans hwait
  · cases hcall.symm.trans hc
    obtain ⟨rfl, ⟨⟩⟩ := Prod.mk.inj (hp.symm.trans hpublish)
    rw [hpublish] at hconserves
    subst hd
    have hkey : o.key (e, some s) = s.slot := rfl
    refine ⟨done ++ [(e, some s)], h.supply hconserves (Cache.closed_publish ..)
      (by simpa using h.order) rfl nofun ?_ ?_ ?_ (Cache.settledCount_publish_le ..)⟩
    · exact fun u slot hw => (hw.forget (hinserts.ne hw).symm).publish s.slot s
    · intro slot hslot
      rw [Cache.isSettled_publish] at hslot
      rw [List.map_append, List.mem_append]
      by_cases hs : slot = s.slot
      · exact .inr (List.mem_singleton.2 hs)
      · rw [if_neg hs] at hslot
        exact .inl (h.shown slot hslot)
    · intro z hz
      rw [List.mem_singleton.1 hz, hkey, Cache.isSettled_publish, if_pos rfl]
  · cases hcall.symm.trans hc

lemma Past.fetch (h : x.Past o capacity requests done coming)
    (hd : x.download.advance o branch .fetcher = some d) :
    (∃ done coming, Past o capacity requests done coming { x with
      download := d
      settled := x.settled ++ d.cache.settledSlots }) ∨ d.crash.isSome ∧ o.Faults := by
  simp only [advance, Download.fetch] at hd
  split at hd
  · next t hi =>
    split at hd
    · next cache answer hp =>
      obtain ⟨done, hpast⟩ := h.insertAnswered hi hp (Option.some.inj hd).symm
      exact .inl ⟨done, none, hpast⟩
    · cases hd
  · next e rest hi ht => exact h.fetchNext hi ht (Option.some.inj hd).symm
  · cases hd

/-! ### Moves of the assembling party -/

/-- What the assembling party may do to the cache, taking `more` epochs. -/
lemma Past.consume {d : Download} {more : List Epoch} (h : x.Past o capacity requests done coming)
    (hkeeps : d.toFetch = x.download.toFetch ∧ d.requests = x.download.requests ∧
      d.inserting = x.download.inserting ∧ d.crash = x.download.crash ∧ d.received = true)
    (hconserves : d.cache.Conserves capacity) (hopen : d.cache.closed = !d.assembling)
    (hinserts : ∀ t slot s, x.download.inserting = some t → x.download.cache.Inserts t slot s →
      d.cache.Inserts t slot s)
    (hawaits : ∀ e t, d.waiting = some (e, t) → d.cache.Awaits t (o.network.terminalSlot e))
    (hleft : x.download.left = more ++ d.left)
    (hended : d.assembling = false → d.left = [] ∧ d.outgoing = none)
    (hshown : ∀ slot, d.cache.isSettled slot = true → x.download.cache.isSettled slot = true)
    (hcount : d.cache.settledCount + more.length ≤ x.download.cache.settledCount) :
    Past o capacity requests done coming {
      download := d
      settled := x.settled ++ d.cache.settledSlots
      taken := x.taken ++ more } := by
  obtain ⟨htoFetch, hrequests, hinserting, hcrash, hreceived⟩ := hkeeps
  have hshows (slot : Slot) (hslot : d.cache.isSettled slot = true) : slot ∈ done.map o.key :=
    h.shown slot (hshown slot hslot)
  exact
    { conserves := hconserves
      received := hreceived
      running := hcrash.trans h.running
      isOpen := hopen
      order := by
        show done ++ _ ++ o.outcomes d.requests d.toFetch = _
        rw [hrequests, htoFetch]
        exact h.order
      inserting := (congrArg Option.isSome hinserting).trans h.inserting
      inserts := fun t e s hi hc =>
        hinserts t s.slot s (hinserting.symm.trans hi) (h.inserts t e s (hinserting.symm.trans hi) hc)
      awaits := hawaits
      taken := by
        have htaken := h.taken
        rw [hleft] at htaken
        exact (List.append_assoc ..).trans htaken
      ended := hended
      shown := hshows
      settled := fun slot => by
        have happ : slot ∈ x.settled ++ d.cache.settledSlots ↔ slot ∈ (done ++ []).map o.key :=
          mem_settled_append h.settled
            (fun slot hslot => (List.append_nil done).symm ▸ hshows slot hslot)
            (fun _ hz => absurd hz List.not_mem_nil) slot
        rwa [List.append_nil] at happ
      count := by
        have hbefore := h.count
        show d.cache.settledCount + (x.taken ++ more).length ≤ done.length
        rw [List.length_append]
        omega }

/-- An answer that delivers a settled promise is taken as the outcome of its epoch. -/
lemma takes_of_delivery {y : Download} {slot : Slot} {p : Promise Snapshot}
    (ho : y.outgoing = none) (hw : y.waiting = some (e, t)) (hp : p.isSettled = true)
    (hpoll : (y.cache.poll t branch).2 = some (Cache.delivery slot p)) :
    y.takes branch = some e := by
  cases p with
  | pending => cases hp
  | ready s => simp only [takes, ho, hw, hpoll, Cache.delivery]
  | unavailable => simp only [takes, ho, hw, hpoll, Cache.delivery]

/-- Such an answer moves the window on, whatever the outcome is. -/
lemma waitAnswered_delivery {y : Download} {slot : Slot} {p : Promise Snapshot}
    (hp : p.isSettled = true) (hd : d = y.waitAnswered o e (Cache.delivery slot p)) :
    ∃ history outgoing abandoned progress,
      d = { y with waiting := none, history, outgoing, abandoned, progress } := by
  rw [hd]
  cases p with
  | pending => cases hp
  | ready s => exact slide_keeps o { y with waiting := none } e (some s)
  | unavailable => exact slide_keeps o { y with waiting := none } e none

/-- What the assembling party waits for it takes once it is settled. -/
lemma Past.waitAnswered {cache : Cache Snapshot} {answer : Cache.Answer Snapshot}
    (h : x.Past o capacity requests done coming) (ho : x.download.outgoing = none)
    (hw : x.download.waiting = some (e, t))
    (hp : x.download.cache.poll t branch = (cache, some answer))
    (hd : d = ({ x.download with cache } : Download).waitAnswered o e answer) :
    Past o capacity requests done coming {
      download := d
      settled := x.settled ++ d.cache.settledSlots
      taken := x.taken ++ (x.download.takes branch).toList } := by
  have hawaits := h.awaits e t hw
  obtain ⟨entry, hget, hcall⟩ := id hawaits
  have hassembling := h.assembling_of_waiting hw
  have hopen : x.download.cache.closed = false := by
    rw [h.isOpen, hassembling]
    rfl
  have hconserves := h.conserves.poll t branch
  rcases x.download.cache.poll_cases t branch with
    hnone | ⟨hclosed | ⟨slot, seen, hwait⟩, -⟩ | ⟨slot, a, hc, -⟩ |
      ⟨slot, seen, attached, hc, hseen, hremove⟩
  · cases hp.symm.trans hnone
  · cases hopen.symm.trans hclosed
  · cases hcall.symm.trans hwait
  · cases hcall.symm.trans hc
  · cases hcall.symm.trans hc
    obtain ⟨rfl, hanswer⟩ := Prod.mk.inj (hp.symm.trans hremove)
    cases hanswer
    have htakes := takes_of_delivery ho hw hseen (congrArg Prod.snd hp)
    obtain ⟨history, outgoing, abandoned, progress, rfl⟩ := waitAnswered_delivery hseen hd
    rw [htakes]
    rw [hremove] at hconserves
    have hleft : x.download.left = [e] ++ x.download.toTake := by rw [left, hw]; rfl
    have hclosed : (((x.download.cache.forget t).removeEntry
        (o.network.terminalSlot e)).closed = !x.download.assembling) :=
      (Cache.closed_removeEntry ..).trans h.isOpen
    refine h.consume ⟨rfl, rfl, rfl, rfl, h.received⟩ hconserves hclosed ?_
      (fun _ _ hnone => by cases hnone) hleft ?_ ?_ ?_
    · intro u slot s _ hinserts
      exact (hinserts.forget (hinserts.ne hawaits)).removeEntry _
    · exact fun ha => by cases ha.symm.trans hassembling
    · intro slot hslot
      rw [Cache.isSettled_removeEntry] at hslot
      by_cases hs : slot = o.network.terminalSlot e
      · rw [if_pos hs] at hslot
        cases hslot
      · rwa [if_neg hs] at hslot
    · have hremoved := (x.download.cache.forget t).settledCount_removeEntry
        (o.network.terminalSlot e)
      have hone : ((x.download.cache.forget t).isSettled (o.network.terminalSlot e)).toNat = 1 := by
        show (((x.download.cache.entries.get? _).map _).getD false).toNat = 1
        rw [hget, Option.map_some, Option.getD_some, hseen]
        rfl
      rw [hone] at hremoved
      exact Nat.le_of_eq hremoved

lemma Past.beginWait {rest : List Epoch} (h : x.Past o capacity requests done coming)
    (hw : x.download.waiting = none) (ht : x.download.toTake = e :: rest) :
    Past o capacity requests done coming {
      download := { x.download with
        cache := (x.download.cache.beginWait (o.network.terminalSlot e)).1
        toTake := rest
        waiting := some (e, (x.download.cache.beginWait (o.network.terminalSlot e)).2) }
      settled := x.settled
        ++ (x.download.cache.beginWait (o.network.terminalSlot e)).1.settledSlots
      taken := x.taken ++ [] } := by
  have hleft : x.download.left = e :: rest := by rw [left, hw, ht]; rfl
  refine h.consume ⟨rfl, rfl, rfl, rfl, h.received⟩ (h.conserves.beginWait _)
    ((Cache.closed_beginWait ..).trans h.isOpen) ?_ ?_ hleft ?_ ?_ ?_
  · exact fun t slot s _ hinserts => hinserts.beginWait _
  · intro e' t' hw'
    cases hw'
    exact Cache.awaits_beginWait h.conserves _
  · intro ha
    have hended := (h.ended ha).1
    rw [hleft] at hended
    cases hended
  · intro slot hslot
    rwa [← Cache.isSettled_beginWait]
  · exact Nat.le_of_eq (Cache.settledCount_beginWait ..)

lemma Past.close (h : x.Past o capacity requests done coming) (ho : x.download.outgoing = none)
    (hw : x.download.waiting = none) (ht : x.download.toTake = []) :
    Past o capacity requests done coming {
      download := { x.download with
        cache := x.download.cache.close
        assembling := false }
      settled := x.settled ++ x.download.cache.close.settledSlots
      taken := x.taken ++ [] } := by
  have hleft : x.download.left = [] := by rw [left, hw, ht]; rfl
  have hfetched := (h.fetched_of_taken hleft).2
  refine h.consume ⟨rfl, rfl, rfl, rfl, h.received⟩ h.conserves.close (Cache.closed_clear _) ?_ ?_
    rfl (fun _ => ⟨hleft, ho⟩) ?_ ?_
  · intro t slot s hi
    cases hi.symm.trans hfetched.1
  · intro e t hw'
    cases hw'.symm.trans hw
  · intro slot hslot
    rw [Cache.close_eq, Cache.isSettled_clear] at hslot
    cases hslot
  · show x.download.cache.close.settledCount + 0 ≤ x.download.cache.settledCount
    rw [Cache.close_eq, Cache.settledCount_clear]
    exact Nat.zero_le _

/-- A move that leaves the cache alone takes nothing. -/
lemma Past.congr {d : Download} (h : x.Past o capacity requests done coming)
    (hkeeps : d.toFetch = x.download.toFetch ∧ d.requests = x.download.requests ∧
      d.inserting = x.download.inserting ∧ d.crash = x.download.crash ∧ d.received = true)
    (hcache : d.cache = x.download.cache) (hwaiting : d.waiting = x.download.waiting)
    (htoTake : d.toTake = x.download.toTake) (ha : d.assembling = x.download.assembling)
    (hout : x.download.outgoing = none → d.outgoing = none) :
    Past o capacity requests done coming {
      download := d
      settled := x.settled ++ d.cache.settledSlots
      taken := x.taken ++ [] } := by
  have hleft : d.left = x.download.left := by rw [left, left, hwaiting, htoTake]
  refine h.consume hkeeps (hcache ▸ h.conserves) ?_ ?_ ?_ hleft.symm ?_ ?_ ?_
  · rw [hcache, ha]
    exact h.isOpen
  · rw [hcache]
    exact fun t slot s _ hinserts => hinserts
  · rw [hcache, hwaiting]
    exact h.awaits
  · intro hended
    obtain ⟨hnil, ho⟩ := h.ended (ha ▸ hended)
    exact ⟨hleft.trans hnil, hout ho⟩
  · rw [hcache]
    exact fun _ hslot => hslot
  · rw [hcache]
    exact Nat.le_refl _

lemma Past.assemble (h : x.Past o capacity requests done coming)
    (hd : x.download.advance o branch .assembler = some d) :
    Past o capacity requests done coming {
      download := d
      settled := x.settled ++ d.cache.settledSlots
      taken := x.taken ++ (x.download.takes branch).toList } := by
  simp only [advance, Download.assemble] at hd
  split at hd
  · next task _ _ ho =>
    have htakes : x.download.takes branch = none := by simp only [takes, ho]
    rw [send, if_neg (by rw [h.received]; decide)] at hd
    split at hd
    · cases hd
      rw [htakes]
      exact h.congr ⟨rfl, rfl, rfl, rfl, h.received⟩ rfl rfl rfl rfl fun _ => rfl
    · cases hd
  · next e t ho hw =>
    split at hd
    · next cache answer hp => exact h.waitAnswered ho hw hp (Option.some.inj hd).symm
    · cases hd
  · next e rest ho hw ht =>
    have htakes : x.download.takes branch = none := by simp only [takes, ho, hw]
    cases hd
    rw [htakes]
    exact h.beginWait hw ht
  · next ho hw ht =>
    have htakes : x.download.takes branch = none := by simp only [takes, ho, hw]
    split at hd
    · cases hd
      rw [htakes]
      exact h.close ho hw ht
    · cases hd

lemma Past.receive {task : EpochTask} (h : x.Past o capacity requests done coming)
    (hd : x.download.receive? = some (task, d)) :
    Past o capacity requests done coming { x with download := d } := by
  obtain ⟨queue, rfl⟩ := receive_keeps hd
  exact
    { conserves := h.conserves
      received := h.received
      running := h.running
      isOpen := h.isOpen
      order := h.order
      inserting := h.inserting
      inserts := h.inserts
      awaits := h.awaits
      taken := h.taken
      ended := h.ended
      shown := h.shown
      settled := h.settled
      count := h.count }

/-! ### Runs -/

/-- A crash is not recovered from. -/
lemma crash_step (hc : x.download.crash.isSome) (hs : Step o x y) : y.download.crash.isSome := by
  cases hs with
  | fetch hd => exact crash_advance hd hc
  | assemble hd => exact crash_advance hd hc
  | receive hd =>
    obtain ⟨queue, rfl⟩ := receive_keeps hd
    exact hc

/-- Whatever a source answers and however the parties move, a download that has not crashed has
settled the first outcomes in order and has taken the first epochs. -/
theorem Reached.past (hr : Reached o capacity requests x) :
    (∃ done coming, x.Past o capacity requests done coming) ∨
      x.download.crash.isSome ∧ o.Faults := by
  induction hr with
  | refl => exact .inl ⟨[], none, past_start o capacity requests⟩
  | tail hr hs ih =>
    rcases ih with ⟨done, coming, hpast⟩ | ⟨hcrash, hfaults⟩
    · cases hs with
      | fetch hd => exact hpast.fetch hd
      | assemble hd => exact .inl ⟨done, coming, hpast.assemble hd⟩
      | receive hd => exact .inl ⟨done, coming, hpast.receive hd⟩
    · exact .inr ⟨crash_step hcrash hs, hfaults⟩

lemma Reached.past_of_running (hr : Reached o capacity requests x)
    (hrun : x.download.crash = none) : ∃ done coming, x.Past o capacity requests done coming := by
  rcases hr.past with hpast | ⟨hcrash, -⟩
  · exact hpast
  · rw [hrun] at hcrash
    cases hcrash

/-- The outcomes that are settled are those of the epochs that the fetching party has moved past. -/
lemma Past.epochs_done (h : x.Past o capacity requests done coming) :
    done = (o.outcomes requests o.downloads).take (x.download.passed o).length ∧
      done.map (·.1) = x.download.passed o := by
  have hepochs := h.epochs
  have hlength := congrArg List.length hepochs
  have hinserting := h.length_inserting
  rw [List.length_append, List.length_append, List.length_map, List.length_map] at hlength
  have hcount : o.downloads.length - (x.download.toFetch.length
      + x.download.inserting.toList.length) = done.length := by omega
  have hpassed : x.download.passed o = done.map (·.1) := by
    rw [passed, hcount, ← hepochs, List.append_assoc]
    exact List.take_left' (List.length_map _)
  refine ⟨?_, hpassed.symm⟩
  rw [hpassed, List.length_map, ← h.order, List.append_assoc, List.take_left]

end Trace

end Download

end EpochRewards
