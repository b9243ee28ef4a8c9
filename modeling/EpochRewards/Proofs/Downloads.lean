import EpochRewards.Proofs.Promises
import EpochRewards.Proofs.Windows

/-!
What downloads hand out.

The outcome of every epoch is settled once and for all, so the epochs that the assembling party
has not taken yet determine the windows to come, together with the history. As long as the cache
only shows what agrees with the outcomes no move of a party changes these windows.
-/

namespace EpochRewards

/-- States carry the slot that they are requested under. -/
def Source.Placed (src : Source) : Prop := ∀ slot i s, src.state slot i = .ok s → s.slot = slot

lemma Source.Faithful.placed {src : Source} {net : Network} (h : src.Faithful net) : src.Placed :=
  fun slot i s hs => (h slot i s hs).1

/-- States carry the slot that they are requested under and, of the epochs that a range needs,
the epoch as well. -/
structure Source.Dated (src : Source) (net : Network) (r : SlotRange) : Prop where
  placed : src.Placed
  epoch : ∀ e ∈ r.downloadEpochs.toList, ∀ i s,
    src.state (net.terminalSlot e) i = .ok s → s.epoch = e

namespace Outcomes

/-- What an epoch comes to. -/
def outcome (xs : Outcomes) (e : Epoch) : Option Snapshot := (xs.lookup e).join

variable {xs : Outcomes}

lemma outcome_of_mem (hn : (xs.map (·.1)).Nodup) {x : Epoch × Option Snapshot} (hx : x ∈ xs) :
    xs.outcome x.1 = x.2 := by
  rw [outcome, Cache.lookup_of_mem hn hx]
  rfl

lemma map_outcome (hn : (xs.map (·.1)).Nodup) :
    (xs.map (·.1)).map (fun e => (e, xs.outcome e)) = xs := by
  rw [List.map_map]
  refine (List.map_congr_left fun x hx => ?_).trans (List.map_id _)
  exact Prod.ext rfl (outcome_of_mem hn hx)

end Outcomes

namespace Order

/-- What every epoch comes to. -/
abbrev Outcome := Epoch → Option Snapshot

def downloads (o : Order) : List Epoch := o.range.downloadEpochs.toList

/-- An epoch that has a snapshot shares its last slot with no other one. -/
def Unshared (o : Order) (f : Outcome) : Prop :=
  ∀ e ∈ o.downloads, ∀ e' ∈ o.downloads, o.network.terminalSlot e = o.network.terminalSlot e' →
    e ≠ e' → f e = none

/-- A promise that shows what the epochs with this last slot come to. -/
def Agrees (o : Order) (f : Outcome) (slot : Slot) : Promise Snapshot → Prop
  | .pending => True
  | .ready s => ∀ e ∈ o.downloads, o.network.terminalSlot e = slot → f e = some s
  | .unavailable => ∀ e ∈ o.downloads, o.network.terminalSlot e = slot → f e = none

/-- A request for a snapshot that ends in a fault. -/
def Faults (o : Order) : Prop :=
  ∃ e ∈ o.downloads, ∃ q q' fault,
    (o.source.snapshot o.network o.retries e).run q = .error (.fault fault) q'

variable {o : Order} {f : Outcome} {e : Epoch} {s : Snapshot}

lemma unshared_of_nodup (h : (o.downloads.map o.network.terminalSlot).Nodup) : o.Unshared f :=
  fun _ he _ he' hs hne => absurd (List.inj_on_of_nodup_map h he he' hs) hne

lemma agrees_ready (hf : o.Unshared f) (he : e ∈ o.downloads) (hs : f e = some s) :
    o.Agrees f (o.network.terminalSlot e) (.ready s) := by
  intro e' he' hslot
  by_cases h : e' = e
  · rw [h, hs]
  · have hnone := hf e he e' he' hslot.symm (Ne.symm h)
    rw [hs] at hnone
    cases hnone

lemma agrees_unavailable (hf : o.Unshared f) (he : e ∈ o.downloads) (hs : f e = none) :
    o.Agrees f (o.network.terminalSlot e) .unavailable := by
  intro e' he' hslot
  by_cases h : e' = e
  · rw [h, hs]
  · exact hf e' he' e he hslot h

end Order

namespace Download

/-- The epochs whose outcomes are not taken yet. -/
def left (d : Download) : List Epoch := d.waiting.toList.map (·.1) ++ d.toTake

def outcomesLeft (f : Order.Outcome) (d : Download) : Outcomes := d.left.map fun e => (e, f e)

def await (o : Order) (d : Download) : Option Cache.Await :=
  d.waiting.map fun x => ⟨x.2, o.network.terminalSlot x.1⟩

/-- A download that has not crashed, of which whatever is shown agrees with the outcomes. -/
structure Underway (o : Order) (f : Order.Outcome) (d : Download) : Prop where
  vouches : d.assembling = true → Cache.Vouches (o.Agrees f) d.inserting (d.await o) d.cache
  within : ∀ e ∈ d.left, e ∈ o.downloads
  ended : d.assembling = false → d.left = [] ∧ d.outgoing = none
  received : d.received = true
  running : d.crash = none

/-- The tasks that have not been received, by the outcomes to come. -/
def tasksLeft (o : Order) (d : Download) (xs : Outcomes) : List EpochTask :=
  d.queue ++ d.outgoing.toList ++ (slideAll o.range d.history xs).1

/-- The windows that are found incomplete, before or after. -/
def lostInAll (o : Order) (d : Download) (xs : Outcomes) : List Epoch :=
  d.abandoned ++ (slideAll o.range d.history xs).2

/-- A download that will have handed out `tasks` and will have lost the windows of `lost`. -/
structure Owes (o : Order) (f : Order.Outcome) (d : Download) (tasks : List EpochTask)
    (lost : List Epoch) : Prop where
  underway : Underway o f d
  tasks : d.tasksLeft o (d.outcomesLeft f) = tasks
  lost : d.lostInAll o (d.outcomesLeft f) = lost

/-- The fetching party will find the outcomes. -/
structure Fetches (o : Order) (f : Order.Outcome) (d : Download) : Prop where
  within : ∀ e ∈ d.toFetch, e ∈ o.downloads
  outcomes : ∀ x ∈ o.outcomes d.requests d.toFetch, f x.1 = x.2

variable {o : Order} {f : Order.Outcome} {d d' : Download} {tasks : List EpochTask}
  {lost : List Epoch} {branch : Cache.Branch}

lemma owes_start (capacity : Nat) (requests : Requests) (f : Order.Outcome) :
    Owes o f (start o.range capacity requests)
      (slideAll o.range (.start o.range) (o.downloads.map fun e => (e, f e))).1
      (slideAll o.range (.start o.range) (o.downloads.map fun e => (e, f e))).2 where
  underway :=
    { vouches := fun _ => Cache.vouches_ofCapacity capacity
      within := fun _ he => he
      ended := nofun
      received := rfl
      running := rfl }
  tasks := rfl
  lost := rfl

/-! ### The fetching party -/

/-- What the fetching party does to the cache has to agree with the outcomes. -/
lemma Owes.supplied (h : Owes o f d tasks lost) (toFetch : List Epoch)
    (inserting : Option Cache.Ticket) (requests : Requests) (cache : Cache Snapshot)
    (hv : d.assembling = true → Cache.Vouches (o.Agrees f) inserting (d.await o) cache) :
    Owes o f { d with toFetch, inserting, requests, cache } tasks lost where
  underway := ⟨hv, h.underway.within, h.underway.ended, h.underway.received, h.underway.running⟩
  tasks := h.tasks
  lost := h.lost

lemma fetchNext_owes {e : Epoch} {rest : List Epoch} (hp : o.source.Placed) (hf : o.Unshared f)
    (h : Owes o f d tasks lost) (hfetch : Fetches o f d) (hi : d.inserting = none)
    (ht : d.toFetch = e :: rest) :
    Owes o f (d.fetchNext o e rest) tasks lost ∧ Fetches o f (d.fetchNext o e rest) ∨
      (d.fetchNext o e rest).crash.isSome ∧ o.Faults := by
  have he : e ∈ o.downloads := hfetch.within e (ht ▸ List.mem_cons_self)
  have hwithin : ∀ x ∈ rest, x ∈ o.downloads :=
    fun x hx => hfetch.within x (ht ▸ List.mem_cons_of_mem _ hx)
  have houtcomes := hfetch.outcomes
  have hv := h.underway.vouches
  rw [hi] at hv
  rw [ht, Order.outcomes] at houtcomes
  unfold fetchNext
  split
  · next s requests hs =>
    left
    rw [hs] at houtcomes
    have hslot : s.slot = o.network.terminalSlot e := by
      obtain ⟨i, state, hstate, hsnap⟩ := Source.snapshot_ok hs
      have := hp _ i state hstate
      rw [hsnap]
      exact this
    have hagrees : o.Agrees f s.slot (.ready s) := by
      rw [hslot]
      exact Order.agrees_ready hf he (houtcomes _ List.mem_cons_self)
    refine ⟨h.supplied _ _ _ _ fun ha => Cache.vouches_beginInsert (hv ha) hagrees, hwithin, ?_⟩
    exact fun x hx => houtcomes x (List.mem_cons_of_mem _ hx)
  · next err requests hs =>
    left
    rw [hs] at houtcomes
    have hagrees := Order.agrees_unavailable hf he (houtcomes _ List.mem_cons_self)
    refine ⟨h.supplied _ _ _ _ fun ha => ?_, hwithin, ?_⟩
    · rw [hi]
      exact Cache.vouches_markUnavailable (hv ha) hagrees
    · exact fun x hx => houtcomes x (List.mem_cons_of_mem _ hx)
  · next fault requests hs => exact .inr ⟨rfl, e, he, _, _, fault, hs⟩

/-- A move of the fetching party, unless it ends in a fault. -/
lemma fetch_owes (hp : o.source.Placed) (hf : o.Unshared f) (h : Owes o f d tasks lost)
    (hfetch : Fetches o f d) (hd : d.fetch o branch = some d') :
    Owes o f d' tasks lost ∧ Fetches o f d' ∨ d'.crash.isSome ∧ o.Faults := by
  unfold fetch at hd
  split at hd
  · next t hi =>
    split at hd
    · next cache answer hpoll =>
      cases hd
      have hv := h.underway.vouches
      rw [hi] at hv
      have hcache (ha : d.assembling = true) : Cache.Vouches (o.Agrees f) none (d.await o) cache :=
        (Cache.vouches_poll_insertion (hv ha) hpoll).2
      left
      cases answer with
      | inserted => exact ⟨h.supplied _ _ _ _ hcache, hfetch.within, hfetch.outcomes⟩
      | taken | refused => exact ⟨h.supplied _ _ _ _ hcache, nofun, nofun⟩
    · cases hd
  · next e rest hi ht =>
    cases hd
    exact fetchNext_owes hp hf h hfetch hi ht
  · cases hd

/-! ### The assembling party -/

lemma Underway.assembling_of_waiting {x : Epoch × Cache.Ticket} (h : Underway o f d)
    (hw : d.waiting = some x) : d.assembling = true := by
  cases ha : d.assembling with
  | true => rfl
  | false =>
    have hleft := (h.ended ha).1
    rw [left, hw] at hleft
    cases hleft

lemma send_owes {task : EpochTask} (h : Owes o f d tasks lost) (ho : d.outgoing = some task)
    (hd : d.send task = some d') : Owes o f d' tasks lost := by
  have hu := h.underway
  have ht := h.tasks
  rw [send, if_neg (by rw [hu.received]; decide)] at hd
  split at hd
  · cases hd
    refine ⟨⟨hu.vouches, hu.within, fun ha => ⟨(hu.ended ha).1, rfl⟩, hu.received, hu.running⟩, ?_,
      h.lost⟩
    rw [tasksLeft, ho] at ht
    simpa [tasksLeft, outcomesLeft, left] using ht
  · cases hd

lemma beginWait_owes {e : Epoch} {rest : List Epoch} (h : Owes o f d tasks lost)
    (hw : d.waiting = none) (ht : d.toTake = e :: rest) :
    Owes o f { d with
      cache := (d.cache.beginWait (o.network.terminalSlot e)).1
      toTake := rest
      waiting := some (e, (d.cache.beginWait (o.network.terminalSlot e)).2) } tasks lost := by
  have hu := h.underway
  have hleft : d.left = e :: rest := by rw [left, hw, ht]; rfl
  have hpast := h.tasks
  have hlost := h.lost
  have hwithin := hu.within
  rw [outcomesLeft, hleft] at hpast hlost
  rw [hleft] at hwithin
  refine ⟨⟨fun ha => ?_, hwithin, fun ha => ?_, hu.received, hu.running⟩, hpast, hlost⟩
  · have hv := hu.vouches ha
    rw [await, hw] at hv
    exact Cache.vouches_beginWait hv trivial
  · have := (hu.ended ha).1
    rw [hleft] at this
    cases this

lemma close_owes (h : Owes o f d tasks lost) (ho : d.outgoing = none) (hw : d.waiting = none)
    (ht : d.toTake = []) :
    Owes o f { d with
      cache := d.cache.close
      assembling := false } tasks lost := by
  have hu := h.underway
  have hleft : d.left = [] := by rw [left, hw, ht]; rfl
  exact ⟨⟨nofun, hu.within, fun _ => ⟨hleft, ho⟩, hu.received, hu.running⟩, h.tasks, h.lost⟩

/-- A taken outcome is one that does not slide in any more. -/
lemma slide_left (e : Epoch) (x : Option Snapshot) (rest : Outcomes) (ho : d.outgoing = none) :
    (d.slide o e x).tasksLeft o rest = d.tasksLeft o ((e, x) :: rest) ∧
      (d.slide o e x).lostInAll o rest = d.lostInAll o ((e, x) :: rest) := by
  unfold slide tasksLeft lostInAll
  rw [slideAll]
  cases hc : o.range.windowEpochs.contains e with
  | false => exact ⟨rfl, rfl⟩
  | true =>
    cases hw : (d.history.push x).window? with
    | some w => simp [hw, ho]
    | none => simp [hw, ho]

lemma slide_keeps (o : Order) (d : Download) (e : Epoch) (x : Option Snapshot) :
    ∃ history outgoing abandoned progress,
      d.slide o e x = { d with history, outgoing, abandoned, progress } := by
  simp only [slide]
  split
  · split
    · exact ⟨_, _, _, _, rfl⟩
    · exact ⟨_, _, _, _, rfl⟩
  · exact ⟨_, _, _, _, rfl⟩

/-- An answer that agrees with the outcomes slides the window on by the outcome. -/
lemma waitAnswered_agrees {e : Epoch} {p : Promise Snapshot} (he : e ∈ o.downloads)
    (hp : o.Agrees f (o.network.terminalSlot e) p) (hs : p.isSettled = true) :
    d.waitAnswered o e (Cache.delivery (o.network.terminalSlot e) p)
      = ({ d with waiting := none } : Download).slide o e (f e) := by
  cases p with
  | pending => cases hs
  | ready s => rw [hp e he rfl]; rfl
  | unavailable => rw [hp e he rfl]; rfl

/-- An answer takes the first outcome that is left. -/
lemma await_owes {e : Epoch} {t : Cache.Ticket} {cache : Cache Snapshot}
    {answer : Cache.Answer Snapshot} (h : Owes o f d tasks lost) (ho : d.outgoing = none)
    (hw : d.waiting = some (e, t)) (hp : d.cache.poll t branch = (cache, some answer)) :
    Owes o f (({ d with cache } : Download).waitAnswered o e answer) tasks lost := by
  have hu := h.underway
  have ha := hu.assembling_of_waiting hw
  have hv := hu.vouches ha
  have hawait : d.await o = some ⟨t, o.network.terminalSlot e⟩ := by rw [await, hw]; rfl
  rw [hawait] at hv
  obtain ⟨⟨p, hagrees, hs, rfl⟩, hcache⟩ := Cache.vouches_poll_await hv hp
  have hleft : d.left = e :: d.toTake := by rw [left, hw]; rfl
  have he : e ∈ o.downloads := hu.within e (hleft ▸ List.mem_cons_self)
  have htasks := h.tasks
  have hlost := h.lost
  rw [outcomesLeft, hleft, List.map_cons] at htasks hlost
  have hslid := slide_left (o := o) (d := ({ d with cache, waiting := none } : Download)) e (f e)
    (d.toTake.map fun e => (e, f e)) ho
  obtain ⟨history, outgoing, abandoned, progress, hslide⟩ :=
    slide_keeps o { d with cache, waiting := none } e (f e)
  rw [waitAnswered_agrees he hagrees hs]
  rw [hslide] at hslid ⊢
  refine ⟨⟨fun _ => hcache, fun x hx => ?_, fun hn => ?_, hu.received, hu.running⟩, ?_, ?_⟩
  · exact hu.within x (hleft ▸ List.mem_cons_of_mem _ hx)
  · exact absurd (ha.symm.trans hn) nofun
  · exact hslid.1.trans htasks
  · exact hslid.2.trans hlost

/-- A move of the assembling party. -/
lemma assemble_owes (h : Owes o f d tasks lost) (hd : d.assemble o branch = some d') :
    Owes o f d' tasks lost := by
  unfold assemble at hd
  split at hd
  · next task _ _ ho => exact send_owes h ho hd
  · next _ e t ho hw =>
    split at hd
    · next cache answer hp =>
      cases hd
      exact await_owes h ho hw hp
    · cases hd
  · next e rest ho hw ht =>
    cases hd
    exact beginWait_owes h hw ht
  · next ho hw ht =>
    split at hd
    · cases hd
      exact close_owes h ho hw ht
    · cases hd

lemma waitAnswered_keeps (o : Order) (d : Download) (e : Epoch) (answer : Cache.Answer Snapshot) :
    (d.waitAnswered o e answer).toFetch = d.toFetch ∧
      (d.waitAnswered o e answer).requests = d.requests ∧
        (d.waitAnswered o e answer).inserting = d.inserting ∧
          (d.waitAnswered o e answer).crash = d.crash ∧
            (d.waitAnswered o e answer).assembling = d.assembling := by
  have slid (s : Option Snapshot) :
      (slide o { d with waiting := none } e s).toFetch = d.toFetch ∧
        (slide o { d with waiting := none } e s).requests = d.requests ∧
          (slide o { d with waiting := none } e s).inserting = d.inserting ∧
            (slide o { d with waiting := none } e s).crash = d.crash ∧
              (slide o { d with waiting := none } e s).assembling = d.assembling := by
    obtain ⟨_, _, _, _, hs⟩ := slide_keeps o { d with waiting := none } e s
    rw [hs]
    exact ⟨rfl, rfl, rfl, rfl, rfl⟩
  unfold waitAnswered
  split
  · exact slid _
  · exact slid _
  · exact ⟨rfl, rfl, rfl, rfl, rfl⟩

/-- The assembling party leaves the fetching one alone, and does not begin anew. -/
lemma assemble_keeps (hd : d.assemble o branch = some d') :
    d'.toFetch = d.toFetch ∧ d'.requests = d.requests ∧ d'.inserting = d.inserting ∧
      d'.crash = d.crash ∧ (d'.assembling = true → d.assembling = true) := by
  unfold assemble at hd
  split at hd
  · unfold send at hd
    split at hd
    · cases hd
      exact ⟨rfl, rfl, rfl, rfl, id⟩
    · split at hd
      · cases hd
        exact ⟨rfl, rfl, rfl, rfl, id⟩
      · cases hd
  · next _ e _ _ _ =>
    split at hd
    · next cache answer _ =>
      cases hd
      obtain ⟨hto, hrequests, hi, hcrash, ha⟩ := waitAnswered_keeps o { d with cache } e answer
      exact ⟨hto, hrequests, hi, hcrash, fun h => ha ▸ h⟩
    · cases hd
  · cases hd
    exact ⟨rfl, rfl, rfl, rfl, id⟩
  · split at hd
    · cases hd
      exact ⟨rfl, rfl, rfl, rfl, nofun⟩
    · cases hd

/-! ### Downloads -/

/-- No move of a party changes what a download owes, unless it ends in a fault. -/
theorem advance_owes {p : Party} (hp : o.source.Placed) (hf : o.Unshared f)
    (h : Owes o f d tasks lost) (hfetch : Fetches o f d) (hd : d.advance o branch p = some d') :
    Owes o f d' tasks lost ∧ Fetches o f d' ∨ d'.crash.isSome ∧ o.Faults := by
  cases p with
  | fetcher => exact fetch_owes hp hf h hfetch hd
  | assembler =>
    obtain ⟨hto, hrequests, -, -⟩ := assemble_keeps hd
    refine .inl ⟨assemble_owes h hd, ?_, ?_⟩
    · rw [hto]
      exact hfetch.within
    · rw [hto, hrequests]
      exact hfetch.outcomes

/-- A download that has ended in a fault does not recover. -/
lemma crash_advance {p : Party} (hd : d.advance o branch p = some d') (hc : d.crash.isSome) :
    d'.crash.isSome := by
  cases p with
  | fetcher =>
    simp only [advance, fetch] at hd
    split at hd
    · split at hd
      · next cache answer _ =>
        cases hd
        cases answer <;> exact hc
      · cases hd
    · cases hd
      unfold fetchNext
      split
      · exact hc
      · exact hc
      · rfl
    · cases hd
  | assembler =>
    rw [(assemble_keeps hd).2.2.2.1]
    exact hc

/-- What is owed does not depend on the count of windows. -/
lemma Owes.counted (h : Owes o f d tasks lost) (progress : Progress) :
    Owes o f { d with progress } tasks lost :=
  ⟨⟨h.underway.vouches, h.underway.within, h.underway.ended, h.underway.received,
    h.underway.running⟩, h.tasks, h.lost⟩

/-- What is received is the first of what is owed. -/
theorem receive_owes {task : EpochTask} (h : Owes o f d tasks lost)
    (hd : d.receive? = some (task, d')) :
    ∃ rest, tasks = task :: rest ∧ Owes o f d' rest lost := by
  have hu := h.underway
  have htasks := h.tasks
  unfold receive? at hd
  split at hd
  · cases hd
  · next queue hq =>
    cases hd
    refine ⟨queue ++ d.outgoing.toList ++ (slideAll o.range d.history _).1, ?_,
      ⟨hu.vouches, hu.within, hu.ended, hu.received, hu.running⟩, rfl, h.lost⟩
    rw [← htasks, tasksLeft, hq]
    rfl

lemma receive_keeps {task : EpochTask} (hd : d.receive? = some (task, d')) :
    ∃ queue, d' = { d with queue } := by
  unfold receive? at hd
  split at hd
  · cases hd
  · next queue _ =>
    cases hd
    exact ⟨queue, rfl⟩

/-- A download that has ended owes nothing beyond its queue. -/
theorem Owes.ended (h : Owes o f d tasks lost) (ha : d.assembling = false) :
    tasks = d.queue ∧ lost = d.abandoned := by
  obtain ⟨hleft, ho⟩ := h.underway.ended ha
  have hx : d.outcomesLeft f = [] := by rw [outcomesLeft, hleft]; rfl
  have htasks := h.tasks
  have hlost := h.lost
  rw [hx, tasksLeft, ho, slideAll, Option.toList_none, List.append_nil, List.append_nil] at htasks
  rw [hx, lostInAll, slideAll, List.append_nil] at hlost
  exact ⟨htasks.symm, hlost.symm⟩

/-! ### Windows that are given up -/

/-- A move gives up one window at most, and one that does counts it as done with. -/
def Counts (d d' : Download) : Prop :=
  d'.abandoned = d.abandoned ∧ d'.progress = d.progress ∨
    ∃ e, d'.abandoned = d.abandoned ++ [e] ∧ d'.progress = d.progress.advance

lemma fetch_counts (hd : d.fetch o branch = some d') : d.Counts d' := by
  left
  unfold fetch at hd
  split at hd
  · split at hd
    · next cache answer _ =>
      cases hd
      cases answer <;> exact ⟨rfl, rfl⟩
    · cases hd
  · cases hd
    unfold fetchNext
    split <;> exact ⟨rfl, rfl⟩
  · cases hd

lemma slide_counts (e : Epoch) (s : Option Snapshot) : d.Counts (d.slide o e s) := by
  simp only [slide]
  split
  · split
    · exact .inl ⟨rfl, rfl⟩
    · exact .inr ⟨e, rfl, rfl⟩
  · exact .inl ⟨rfl, rfl⟩

lemma assemble_counts (hd : d.assemble o branch = some d') : d.Counts d' := by
  unfold assemble at hd
  split at hd
  · unfold send at hd
    split at hd
    · cases hd
      exact .inl ⟨rfl, rfl⟩
    · split at hd
      · cases hd
        exact .inl ⟨rfl, rfl⟩
      · cases hd
  · next e t _ _ =>
    split at hd
    · cases hd
      unfold waitAnswered
      split
      · exact slide_counts e _
      · exact slide_counts e _
      · exact .inl ⟨rfl, rfl⟩
    · cases hd
  · cases hd
    exact .inl ⟨rfl, rfl⟩
  · split at hd
    · cases hd
      exact .inl ⟨rfl, rfl⟩
    · cases hd

lemma advance_counts {p : Party} (hd : d.advance o branch p = some d') : d.Counts d' := by
  cases p with
  | fetcher => exact fetch_counts hd
  | assembler => exact assemble_counts hd

end Download

end EpochRewards
