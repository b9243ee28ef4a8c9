import EpochRewards.Proofs.Scheduling

/-!
What every schedule conserves.

The windows that a download owes are dispatched in their order. What was dispatched of them is
queued or still to be queued, what was queued is logged or left to the crew, and what was logged
is written or still to be written. An analysis at its end has nothing left anywhere.
-/

namespace EpochRewards

variable {σ : Type}

/-- The history of an analysis: the windows that were received, what was queued of them and all
messages in their order. -/
structure Annals where
  received : List EpochTask
  queued : List Dispatch
  log : List Entry

namespace Annals

def start : Annals := ⟨[], [], []⟩

def receive (h : Annals) (task : EpochTask) : Annals :=
  { h with received := h.received ++ [task] }

def queueMessage (h : Annals) (m : Message) : Annals :=
  { h with
    queued := h.queued ++ [.message m]
    log := h.log ++ [.inl m] }

def queueTask (h : Annals) (t : ValidatorTask) : Annals :=
  { h with queued := h.queued ++ [.task t] }

def finishWindow (h : Annals) : Annals := { h with queued := h.queued ++ [.done] }

def send (h : Annals) (row : Option Row) : Annals :=
  { h with log := h.log ++ row.toList.map .inr }

/-- What an analysis that has not crashed shows of its history. -/
structure Tell (h : Annals) (k : Commission σ) (contents : σ) (f : Order.Outcome)
    (rest : List EpochTask) (lost : List Epoch) (a : Analysis σ) : Prop where
  owes : a.download.Owes k.order f rest lost
  fetches : a.download.Fetches k.order f
  delivers : (k.order.downloads.map k.order.network.terminalSlot).Nodup →
    a.download.Delivers k.order k.plan.cacheCapacity.val
  /-- the windows that were given up and those of which all was queued are done with -/
  counted : a.progress.processed = a.download.abandoned.length + h.queued.count .done
  dispatched : k.plan.processAll k.order.network k.order.range (h.received.map (·.window))
    = .ok (a.report, h.queued ++ a.dispatches)
  interleaved : Interleaved h.queued a.crew.attemptsLeft h.log
  written : ∃ handled, h.log.map Entry.message = handled ++ a.messages ∧
    a.writer = handled.foldl (Writer.handle k.store k.plan.batchSize) (.start contents)
  dispatching : a.dispatchCrash = none
  strength : a.crew.strength = k.plan.workers.val
  working : a.crew.hasCrashed = false

end Annals

namespace Analysis

/-- What can end an analysis of some windows in a fault: a request for a snapshot, the rows about
the first epoch of a window, or the record of a validator. -/
inductive Hazard (k : Commission σ) (tasks : List EpochTask) : Prop
  | fetching (h : k.order.Faults)
  | dispatching {task : EpochTask} {report : DispatchReport} {f : Fault} (ht : task ∈ tasks)
    (h : k.plan.process k.order.network k.order.range report task.window = .error f)
  | resolving {received : List EpochTask} {report : DispatchReport} {ds : List Dispatch}
    {x : Attempt} (ht : received <+: tasks)
    (h : k.plan.processAll k.order.network k.order.range (received.map (·.window))
      = .ok (report, ds))
    (hx : x ∈ attemptsOf ds) (hf : x.IsFault)

/-- An analysis that receives `tasks` in this order and loses the windows of `lost`. -/
def Sound (k : Commission σ) (contents : σ) (f : Order.Outcome) (tasks : List EpochTask)
    (lost : List Epoch) (a : Analysis σ) : Prop :=
  ∃ (h : Annals) (rest : List EpochTask), tasks = h.received ++ rest ∧
    h.Tell k contents f rest lost a

variable {k : Commission σ} {contents : σ} {f : Order.Outcome} {tasks rest : List EpochTask}
  {lost : List Epoch} {h : Annals} {a a' : Analysis σ} {branch : Cache.Branch} {actor : Actor}

/-! ### Moves of the dispatch -/

lemma sound_message {m : Message} {ds : List Dispatch} (ht : h.Tell k contents f rest lost a)
    (hd : a.dispatches = .message m :: ds) :
    (h.queueMessage m).Tell k contents f rest lost
      { a with
        dispatches := ds
        messages := a.messages ++ [m] } where
  owes := ht.owes
  fetches := ht.fetches
  delivers := ht.delivers
  counted := by
    rw [Annals.queueMessage, List.count_append]
    exact ht.counted
  dispatched := by
    have := ht.dispatched
    rw [hd] at this
    simpa [Annals.queueMessage] using this
  interleaved := ht.interleaved.message m
  written := by
    obtain ⟨handled, hl, hw⟩ := ht.written
    refine ⟨handled, ?_, hw⟩
    rw [Annals.queueMessage, List.map_append, hl, List.append_assoc]
    rfl
  dispatching := ht.dispatching
  strength := ht.strength
  working := ht.working

lemma attemptsLeft_queue (c : Crew) (t : ValidatorTask) :
    (c.attemptsLeft ++ t.attempts).Perm
      ({ c with queue := c.queue ++ [t] } : Crew).attemptsLeft :=
  List.perm_append_comm.trans ((c.tasksLeft_queue t).flatMap_right _).symm

lemma sound_task {t : ValidatorTask} {ds : List Dispatch} (ht : h.Tell k contents f rest lost a)
    (hd : a.dispatches = .task t :: ds) :
    (h.queueTask t).Tell k contents f rest lost
      { a with
        dispatches := ds
        crew := { a.crew with queue := a.crew.queue ++ [t] } } where
  owes := ht.owes
  fetches := ht.fetches
  delivers := ht.delivers
  counted := by
    rw [Annals.queueTask, List.count_append]
    exact ht.counted
  dispatched := by
    have := ht.dispatched
    rw [hd] at this
    simpa [Annals.queueTask] using this
  interleaved := (ht.interleaved.task t).reorder (attemptsLeft_queue a.crew t)
  written := ht.written
  dispatching := ht.dispatching
  strength := ht.strength
  working := ht.working

lemma sound_done {ds : List Dispatch} (ht : h.Tell k contents f rest lost a)
    (hd : a.dispatches = .done :: ds) :
    h.finishWindow.Tell k contents f rest lost
      ({ a with dispatches := ds } : Analysis σ).advanceProgress where
  owes := ht.owes.counted _
  fetches := ⟨ht.fetches.within, ht.fetches.outcomes⟩
  delivers hdistinct := (ht.delivers hdistinct).served a.download.queue _
  counted := by
    have hcounted := ht.counted
    show a.progress.processed + 1 = _ + (h.queued ++ [Dispatch.done]).count .done
    rw [List.count_append, List.count_singleton_self, ← Nat.add_assoc, hcounted]
    rfl
  dispatched := by
    have hdispatched := ht.dispatched
    rw [hd, ← List.singleton_append, ← List.append_assoc] at hdispatched
    exact hdispatched
  interleaved := ht.interleaved.done
  written := ht.written
  dispatching := ht.dispatching
  strength := ht.strength
  working := ht.working

lemma sound_receive {task : EpochTask} {queue : List EpochTask} {report : DispatchReport}
    {ds : List Dispatch} (ht : h.Tell k contents f (task :: rest) lost a) (hd : a.dispatches = [])
    (ho : ({ a.download with queue } : Download).Owes k.order f rest lost)
    (hp : k.plan.process k.order.network k.order.range a.report task.window = .ok (report, ds)) :
    (h.receive task).Tell k contents f rest lost
      { a with
        download := { a.download with queue }
        report
        dispatches := ds } where
  owes := ho
  fetches := ⟨ht.fetches.within, ht.fetches.outcomes⟩
  delivers hdistinct := (ht.delivers hdistinct).served queue a.download.progress
  counted := ht.counted
  dispatched := by
    have := ht.dispatched
    rw [hd, List.append_nil] at this
    rw [Annals.receive, List.map_append]
    exact Plan.processAll_concat.2 ⟨_, _, _, this, hp, rfl⟩
  interleaved := ht.interleaved
  written := ht.written
  dispatching := ht.dispatching
  strength := ht.strength
  working := ht.working

/-- The dispatch queues what it has in its order and then receives the next window. -/
lemma sound_dispatch (hs : Sound k contents f tasks lost a) (hd : a.dispatch k = some a') :
    Sound k contents f tasks lost a' ∨ a'.hasCrashed ∧ Hazard k tasks := by
  obtain ⟨h, rest, rfl, ht⟩ := hs
  rw [dispatch, if_pos ht.owes.underway.received] at hd
  split at hd
  · next d ds hds =>
    cases d with
    | message m =>
      simp only [queueDispatch] at hd
      split at hd
      · cases hd
        exact .inl ⟨h.queueMessage m, rest, rfl, sound_message ht hds⟩
      · cases hd
    | task t =>
      have hgone := Crew.not_isGone (ht.strength ▸ k.plan.workers.pos)
      simp only [queueDispatch, if_neg hgone] at hd
      split at hd
      · cases hd
        exact .inl ⟨h.queueTask t, rest, rfl, sound_task ht hds⟩
      · cases hd
    | done =>
      cases hd
      exact .inl ⟨h.finishWindow, rest, rfl, sound_done ht hds⟩
  · next hds =>
    obtain ⟨⟨task, download⟩, hr, rfl⟩ := Option.map_eq_some_iff.1 hd
    obtain ⟨rest, rfl, ho⟩ := Download.receive_owes ht.owes hr
    obtain ⟨queue, rfl⟩ := Download.receive_keeps hr
    show Sound _ _ _ _ _ (a.dispatchNext k task { a.download with queue }) ∨
      (a.dispatchNext k task { a.download with queue }).hasCrashed ∧ _
    unfold dispatchNext
    split
    · next report ds hp =>
      refine .inl ⟨h.receive task, rest, ?_, sound_receive ht hds ho hp⟩
      rw [Annals.receive, List.append_assoc, List.singleton_append]
    · next fault hp =>
      refine .inr ⟨by simp [hasCrashed, stopDispatch], .dispatching ?_ hp⟩
      exact List.mem_append_right _ List.mem_cons_self

/-! ### Moves of the others -/

lemma sound_download {d : Download} {p : Download.Party} (hp : k.order.source.Placed)
    (hf : k.order.Unshared f) (hs : Sound k contents f tasks lost a)
    (hd : a.download.advance k.order branch p = some d) :
    Sound k contents f tasks lost { a with download := d } ∨
      ({ a with download := d } : Analysis σ).hasCrashed ∧ Hazard k tasks := by
  obtain ⟨h, rest, he, ht⟩ := hs
  rcases Download.advance_owes hp hf ht.owes ht.fetches hd with ⟨ho, hfetch⟩ | ⟨hc, hfault⟩
  · refine .inl ⟨h, rest, he, ho, hfetch, fun hdistinct => ?_, ?_, ht.dispatched, ht.interleaved,
      ht.written, ht.dispatching, ht.strength, ht.working⟩
    · exact Download.advance_delivers hdistinct hp (ht.delivers hdistinct)
        ht.owes.underway.received hd
    · have hcounted := ht.counted
      show d.progress.processed = d.abandoned.length + _
      rcases Download.advance_counts hd with ⟨hlost, hsame⟩ | ⟨e, hlost, hmore⟩
      · rw [hlost, hsame]
        exact hcounted
      · rw [hlost, hmore, List.length_append, List.length_singleton, Nat.add_right_comm]
        exact congrArg (· + 1) hcounted
  · exact .inr ⟨by simp [hasCrashed, hc], .fetching hfault⟩

lemma interleaved_send {c c' : Crew} {row : Option Row} (hm : c.Makes c' row)
    (hi : Interleaved h.queued c.attemptsLeft h.log) :
    Interleaved (h.send row).queued c'.attemptsLeft (h.send row).log := by
  cases hm with
  | nothing hp =>
    have hlog : (h.send none).log = h.log := List.append_nil _
    rw [hlog]
    exact hi.reorder hp.symm
  | attempt hp hx => exact (hi.reorder hp.symm).attempt hx

lemma sound_crew {room : Bool} {m : Crew.Move} {c : Crew} {row : Option Row}
    (hs : Sound k contents f tasks lost a) (hc : a.crew.advance room m = some (c, row)) :
    Sound k contents f tasks lost (a.sent c row) ∨
      (a.sent c row).hasCrashed ∧ Hazard k tasks := by
  obtain ⟨h, rest, he, ht⟩ := hs
  rcases Crew.advance_ok hc with ⟨hm, hstrength, hcrashes⟩ | ⟨hcrash, x, hx, hfault⟩
  · refine .inl ⟨h.send row, rest, he, ht.owes, ht.fetches, ht.delivers, ht.counted, ht.dispatched,
      interleaved_send hm ht.interleaved, ?_, ht.dispatching, hstrength.trans ht.strength, ?_⟩
    · obtain ⟨handled, hl, hw⟩ := ht.written
      refine ⟨handled, ?_, hw⟩
      rw [Annals.send, List.map_append, hl, List.append_assoc, List.map_map]
      rfl
    · have hworking := ht.working
      rw [Crew.hasCrashed] at hworking ⊢
      rw [sent, hcrashes, hworking]
  · refine .inr ⟨by simp [hasCrashed, sent, hcrash],
      .resolving (he ▸ List.prefix_append _ _) ht.dispatched ?_ hfault⟩
    rw [attemptsOf_append]
    exact List.mem_append_left _ (ht.interleaved.pending_subset x hx)

lemma sound_write (hs : Sound k contents f tasks lost a) (hw : a.write k = some a') :
    Sound k contents f tasks lost a' := by
  obtain ⟨h, rest, he, ht⟩ := hs
  unfold write at hw
  split at hw
  · cases hw
  · next m messages hm =>
    cases hw
    refine ⟨h, rest, he, ht.owes, ht.fetches, ht.delivers, ht.counted, ht.dispatched,
      ht.interleaved, ?_, ht.dispatching, ht.strength, ht.working⟩
    obtain ⟨handled, hl, hw⟩ := ht.written
    refine ⟨handled ++ [m], ?_, ?_⟩
    · rw [hl, hm, List.append_assoc]
      rfl
    · rw [List.foldl_append, ← hw]
      rfl

/-! ### Faults -/

lemma hasCrashed_iff : a.hasCrashed = true ↔
    a.download.crash.isSome = true ∨ a.dispatchCrash.isSome = true ∨ a.crew.hasCrashed = true := by
  rw [hasCrashed, Bool.or_eq_true, Bool.or_eq_true, or_assoc]

lemma crashed_dispatch (h : a.dispatch k = some a') (hc : a.hasCrashed) : a'.hasCrashed := by
  unfold dispatch at h
  split at h
  · split at h
    · next d ds hds =>
      cases d with
      | message m =>
        simp only [queueDispatch] at h
        split at h
        · cases h
          exact hc
        · cases h
      | task t =>
        simp only [queueDispatch] at h
        split at h
        · cases h
          exact hc
        · split at h
          · cases h
            exact hc
          · cases h
      | done =>
        cases h
        exact hc
    · obtain ⟨⟨task, download⟩, hr, rfl⟩ := Option.map_eq_some_iff.1 h
      obtain ⟨queue, rfl⟩ := Download.receive_keeps hr
      show (a.dispatchNext k task { a.download with queue }).hasCrashed = true
      unfold dispatchNext
      split
      · rw [hasCrashed_iff] at hc ⊢
        exact hc
      · simp [hasCrashed, stopDispatch]
  · cases h

/-- An analysis does not recover from a fault. -/
lemma crashed_advance (h : a.advance k branch actor = some a') (hc : a.hasCrashed) :
    a'.hasCrashed := by
  cases actor with
  | fetcher =>
    obtain ⟨d, hd, rfl⟩ := Option.map_eq_some_iff.1 h
    rw [hasCrashed_iff] at hc ⊢
    exact hc.imp_left (Download.crash_advance hd)
  | assembler =>
    obtain ⟨d, hd, rfl⟩ := Option.map_eq_some_iff.1 h
    rw [hasCrashed_iff] at hc ⊢
    exact hc.imp_left (Download.crash_advance hd)
  | dispatcher => exact crashed_dispatch h hc
  | worker m =>
    obtain ⟨⟨c, row⟩, hm, rfl⟩ := Option.map_eq_some_iff.1 h
    rw [hasCrashed_iff] at hc ⊢
    exact hc.imp_right (Or.imp_right (Crew.crashed_advance hm))
  | writer =>
    simp only [advance, write] at h
    split at h
    · cases h
    · cases h
      exact hc

/-! ### Runs -/

/-- No move loses, repeats or makes up anything, unless it ends in a fault. -/
lemma sound_advance (hp : k.order.source.Placed) (hf : k.order.Unshared f)
    (hs : Sound k contents f tasks lost a) (h : a.advance k branch actor = some a') :
    Sound k contents f tasks lost a' ∨ a'.hasCrashed ∧ Hazard k tasks := by
  cases actor with
  | fetcher =>
    obtain ⟨d, hd, rfl⟩ := Option.map_eq_some_iff.1 h
    exact sound_download hp hf hs hd
  | assembler =>
    obtain ⟨d, hd, rfl⟩ := Option.map_eq_some_iff.1 h
    exact sound_download hp hf hs hd
  | dispatcher => exact sound_dispatch hs h
  | worker m =>
    obtain ⟨⟨c, row⟩, hc, rfl⟩ := Option.map_eq_some_iff.1 h
    exact sound_crew hs hc
  | writer => exact .inl (sound_write hs h)

lemma sound_start (requests : Requests) (contents : σ)
    (hf : ∀ x ∈ k.order.outcomes requests k.order.downloads, f x.1 = x.2) :
    Sound k contents f
      (slideAll k.order.range (.start k.order.range) (k.order.downloads.map fun e => (e, f e))).1
      (slideAll k.order.range (.start k.order.range) (k.order.downloads.map fun e => (e, f e))).2
      (start k requests contents) :=
  ⟨.start, _, rfl, Download.owes_start _ requests f, ⟨fun _ he => he, hf⟩,
    fun _ => Download.delivers_start _ requests, rfl, rfl, .nil, ⟨[], rfl, rfl⟩, rfl, rfl, rfl⟩

/-- Whatever the schedule, an analysis is sound until a part of it ends in a fault. -/
theorem sound_steps (hp : k.order.source.Placed) (hf : k.order.Unshared f)
    (hs : Sound k contents f tasks lost a) (h : Steps k a a') :
    Sound k contents f tasks lost a' ∨ a'.hasCrashed ∧ Hazard k tasks := by
  -- A party that crashed stays so: from then on only the crash is carried along.
  induction h with
  | refl => exact .inl hs
  | tail _ hm ih =>
    obtain ⟨branch, actor, hm⟩ := hm
    rcases ih with ih | ⟨hc, hazard⟩
    · exact sound_advance hp hf ih hm
    · exact .inr ⟨crashed_advance hm hc, hazard⟩

/-! ### Ends -/

lemma messages_of_finished (hf : Finished k a) : a.messages = [] := by
  have hw := hf .writer
  simp only [advance, write] at hw
  split at hw
  · assumption
  · cases hw

lemma hasRoom_of_finished (hf : Finished k a) : a.hasRoom k = true := by
  rw [hasRoom, messages_of_finished hf, List.length_nil]
  exact decide_eq_true k.plan.queueCapacity.pos

/-- With room for its rows, a crew that stops has done its tasks. -/
lemma crew_of_finished (hs : 0 < a.crew.strength) (hf : Finished k a) :
    a.crew.queue = [] ∧ a.crew.attemptsLeft = [] := by
  have hcrew (m : Crew.Move) : a.crew.advance true m = none := by
    have hw := hf (.worker m)
    rw [advance, hasRoom_of_finished hf, Option.map_eq_none_iff] at hw
    exact hw
  obtain ⟨hq, -, hleft⟩ := Crew.attemptsLeft_of_stuck hs hcrew
  exact ⟨hq, hleft⟩

/-- With room for what it queues, a dispatch that stops has queued all it received. -/
lemma dispatch_of_finished (hr : a.download.received = true) (hs : 0 < a.crew.strength)
    (hf : Finished k a) : a.dispatches = [] ∧ a.download.queue = [] := by
  have hdisp := hf .dispatcher
  rw [advance, dispatch, if_pos hr] at hdisp
  cases hd : a.dispatches with
  | cons d ds =>
    rw [hd] at hdisp
    cases d with
    | message m => simp [queueDispatch, hasRoom_of_finished hf] at hdisp
    | task t =>
      simp [queueDispatch, Crew.not_isGone hs, (crew_of_finished hs hf).1, k.plan.workers.pos]
        at hdisp
    | done => cases hdisp
  | nil =>
    simp only [hd, Option.map_eq_none_iff, Download.receive?] at hdisp
    split at hdisp
    · next hq => exact ⟨rfl, hq⟩
    · cases hdisp

/-- When nobody can move the download has ended. -/
lemma ended_of_finished (hd : (k.order.downloads.map k.order.network.terminalSlot).Nodup)
    (hs : Sound k contents f tasks lost a) (hf : Finished k a) : a.download.assembling = false := by
  obtain ⟨h, rest, rfl, ht⟩ := hs
  have hreceived := ht.owes.underway.received
  have hq := (dispatch_of_finished hreceived (ht.strength ▸ k.plan.workers.pos) hf).2
  exact (ht.delivers hd).ended hd k.plan.cacheCapacity.pos hreceived hq
    (Option.map_eq_none_iff.1 (hf .fetcher)) (Option.map_eq_none_iff.1 (hf .assembler))

/-- When nobody can move and the download has ended, everything has been dispatched, queued,
logged and written. -/
theorem sound_finished (hs : Sound k contents f tasks lost a) (hf : Finished k a)
    (ha : a.download.assembling = false) :
    lost = a.download.abandoned ∧ ∃ (queued : List Dispatch) (log : List Entry),
      a.progress.processed = a.download.abandoned.length + queued.count .done ∧
      k.plan.processAll k.order.network k.order.range (tasks.map (·.window))
          = .ok (a.report, queued) ∧
        Interleaved queued [] log ∧
          a.writer = (log.map Entry.message).foldl (Writer.handle k.store k.plan.batchSize)
            (.start contents) := by
  obtain ⟨h, rest, rfl, ht⟩ := hs
  have hstrength : 0 < a.crew.strength := ht.strength ▸ k.plan.workers.pos
  obtain ⟨hd, hq⟩ := dispatch_of_finished ht.owes.underway.received hstrength hf
  obtain ⟨hrest, hlost⟩ := ht.owes.ended ha
  rw [hq] at hrest
  subst hrest
  refine ⟨hlost, h.queued, h.log, ht.counted, ?_, ?_, ?_⟩
  · have hdispatched := ht.dispatched
    rw [List.append_nil]
    rwa [hd, List.append_nil] at hdispatched
  · have hinterleaved := ht.interleaved
    rwa [(crew_of_finished hstrength hf).2] at hinterleaved
  · obtain ⟨handled, hl, hw⟩ := ht.written
    rw [messages_of_finished hf, List.append_nil] at hl
    rw [hl, hw]

/-- An analysis that nobody can move on has crashed only because of a hazard. -/
theorem hazard_of_crashed (hp : k.order.source.Placed) (hf : k.order.Unshared f)
    (hs : Sound k contents f tasks lost a) (h : Steps k a a') (hc : a'.hasCrashed) :
    Hazard k tasks := by
  rcases sound_steps hp hf hs h with ⟨_, _, _, ht⟩ | ⟨-, hazard⟩
  · rw [hasCrashed_iff, ht.owes.underway.running, ht.dispatching, ht.working] at hc
    simp at hc
  · exact hazard

end Analysis

end EpochRewards
