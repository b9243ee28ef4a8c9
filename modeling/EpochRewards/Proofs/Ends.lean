import EpochRewards.Proofs.Conservation
import EpochRewards.Proofs.Gating
import EpochRewards.Proofs.Stores

/-!
The ends of runs.

A run that is not cancelled is refused or ends with an analysis in which nobody can move. If it
ends well then its windows, whatever the schedule, are those of the snapshots that the source
gave when asked for one epoch after another.
-/

namespace EpochRewards.Plan

variable {σ : Type}

/-- The slots that are asked for, expanded to whole epochs. -/
def slots (p : Plan) (net : Network) : SlotRange :=
  ⟨p.initSlot, net.terminalSlot (net.epochOf p.finalSlot), net.epochOf p.initSlot,
    net.epochOf p.finalSlot⟩

def order (p : Plan) (net : Network) (src : Source) : Order :=
  ⟨net, p.slots net, p.fetchRetries, src⟩

def commission (p : Plan) (net : Network) (src : Source) (store : Store σ) : Commission σ :=
  ⟨p, p.order net src, store⟩

/-- The ends of runs that are not cancelled: the refusal of a plan, or what any schedule of its
analysis comes to. -/
inductive Ends (p : Plan) (net : Network) (src : Source) (store : Store σ) (requests : Requests)
    (contents : σ) : RunEnd σ → Prop
  | refused {e : Failure RunFailure} (h : p.range net = .error e) :
    Ends p net src store requests contents ⟨.error e, contents, requests⟩
  | concluded {r : SlotRange} {a : Analysis σ} (h : p.range net = .ok r)
    (hs : Analysis.Steps (p.commission net src store)
      (.start (p.commission net src store) requests contents) a)
    (hf : Analysis.Finished (p.commission net src store) a) :
    Ends p net src store requests contents (a.conclude (p.commission net src store))

variable {p : Plan} {net : Network} {src : Source} {store : Store σ} {requests : Requests}
  {contents : σ} {fin : RunEnd σ} {report : RunReport}

lemma range_ok {r : SlotRange} (h : p.range net = .ok r) : r = p.slots net := by
  simp only [range, Calc.bind_ok, Calc.pure_ok] at h
  obtain ⟨_, -, r', hr, _, -, _, -, rfl⟩ := h
  unfold SlotRange.ofSlots at hr
  split at hr
  · cases hr
  · cases hr
    rfl

/-- A run has one of the ends. -/
theorem ends_run (p : Plan) (net : Network) (src : Source) (store : Store σ) (requests : Requests)
    (contents : σ) : p.Ends net src store requests contents
      (p.run net src store false requests contents) := by
  unfold run
  split
  · next e he => exact .refused he
  · next r hr =>
    cases range_ok hr
    obtain ⟨hs, hf⟩ := Analysis.steps_settle (p.commission net src store)
      (.start (p.commission net src store) requests contents)
    exact .concluded hr hs hf

/-- What the snapshot of each epoch comes to. -/
def snapshots (p : Plan) (net : Network) (src : Source) (requests : Requests) : Outcomes :=
  (p.order net src).outcomes requests (p.slots net).downloadEpochs.toList

/-- The windows whose snapshots could be had. -/
def windows (p : Plan) (net : Network) (src : Source) (requests : Requests) : List Window :=
  (p.slots net).windowEpochs.toList.filterMap (p.snapshots net src requests).windowAt

/-- What is known of a run that ended well with the analysis `a`, by what was queued and by the
log of messages. -/
structure Completed (p : Plan) (net : Network) (src : Source) (store : Store σ)
    (requests : Requests) (contents : σ) (a : Analysis σ) (queued : List Dispatch)
    (log : List Entry) : Prop where
  abandoned : a.download.abandoned = (p.slots net).windowEpochs.toList.filter fun e =>
    ((p.snapshots net src requests).windowAt e).isNone
  counted : a.progress.processed = a.download.abandoned.length + queued.count .done
  dispatched : p.processAll net (p.slots net) (p.windows net src requests) = .ok (a.report, queued)
  interleaved : Interleaved queued [] log
  written : a.writer = (log.map Entry.message).foldl (Writer.handle store p.batchSize)
    (.start contents)

section Completed

variable {a : Analysis σ} {queued : List Dispatch} {log : List Entry}

lemma Completed.sent (h : Completed p net src store requests contents a queued log) :
    log.filterMap Sum.getLeft? = messagesOf queued := h.interleaved.messages

lemma Completed.resolved (h : Completed p net src store requests contents a queued log) :
    (log.filterMap Sum.getRight?).Perm (taskRows queued) := h.interleaved.rows

/-- A store that accepts and keeps what it is given shows the effect of the log. -/
lemma Completed.shown (h : Completed p net src store requests contents a queued log)
    (ha : store.Accepting) (hk : store.Keeping) (hopen : store.isClosed contents = false)
    {old : Table → List Row} (hold : ∀ t, store.rows contents t = .ok (old t))
    (hc : store.close.run (a.writer.finish store).contents = .ok () fin.contents) (t : Table) :
    store.rows fin.contents t = .ok ((log.map Entry.message).foldl (Message.effect t) (old t)) := by
  have hrun := Writer.rows_run ha hk p.batchSize hopen hold (log.map Entry.message) t
  rw [hk.close _ _ t hc, h.written]
  exact hrun

end Completed

lemma conclude_ok {k : Commission σ} {a : Analysis σ} (h : (a.conclude k).result = .ok report) :
    a.hasCrashed = false ∧ a.download.assembling = false ∧
      report = ({ a with writer := a.writer.finish k.store } : Analysis σ).runReport k.order.range ∧
        k.store.close.run (a.writer.finish k.store).contents = .ok () (a.conclude k).contents := by
  unfold Analysis.conclude at h ⊢
  dsimp only at h ⊢
  split at h
  · cases h
  · next u contents hc =>
    split at h
    · cases h
    · next hn =>
      cases h
      rw [hc]
      have hboth := Bool.or_eq_false_iff.1 (Bool.not_eq_true _ ▸ hn)
      exact ⟨hboth.1, hboth.2, rfl, by rw [if_neg hn]⟩

lemma conclude_eq_ok {k : Commission σ} {a : Analysis σ} {closed : σ}
    (hcrash : a.hasCrashed = false) (ha : a.download.assembling = false)
    (hclose : k.store.close.run (a.writer.finish k.store).contents = .ok () closed) :
    (a.conclude k).result
      = .ok (({ a with writer := a.writer.finish k.store } :
        Analysis σ).runReport k.order.range) := by
  have hwell : ¬ (({ a with writer := a.writer.finish k.store } : Analysis σ).hasCrashed
      || a.download.assembling) = true := by
    rw [ha, Bool.or_false]
    exact Bool.not_eq_true _ ▸ hcrash
  unfold Analysis.conclude
  dsimp only
  rw [hclose]
  dsimp only
  rw [if_neg hwell]

lemma epochs_snapshots (p : Plan) (net : Network) (src : Source) (requests : Requests) :
    (p.snapshots net src requests).map (·.1) = (p.order net src).downloads :=
  Order.epochs_outcomes _ _ _

lemma nodup_snapshots (p : Plan) (net : Network) (src : Source) (requests : Requests) :
    ((p.snapshots net src requests).map (·.1)).Nodup := by
  rw [epochs_snapshots]
  exact EpochSpan.nodup_toList _

lemma mem_downloads {e : Epoch} {x : Option Snapshot} (h : (e, x) ∈ p.snapshots net src requests) :
    e ∈ (p.slots net).downloadEpochs.toList := by
  have hmem := List.mem_map_of_mem (f := Prod.fst) h
  rw [epochs_snapshots] at hmem
  exact hmem

/-! ### Sources that tell the epoch -/

section Dated

variable {e : Nat} {s : Snapshot}

lemma epoch_snapshots (hsrc : src.Dated net (p.slots net))
    (h : (e, some s) ∈ p.snapshots net src requests) : s.epoch = e := by
  obtain ⟨i, state, hstate, hs⟩ := Order.mem_outcomes h
  rw [hs]
  exact hsrc.epoch e (mem_downloads h) i state hstate

lemma terminalSlot_snapshots (hsrc : src.Dated net (p.slots net))
    (h : (e, some s) ∈ p.snapshots net src requests) : s.slot = net.terminalSlot e := by
  obtain ⟨i, state, hstate, hs⟩ := Order.mem_outcomes h
  rw [hs]
  exact hsrc.placed _ i state hstate

/-- An epoch that has a snapshot shares its last slot with no other one: the state of the slot
would carry both epochs. -/
lemma epoch_unique (hsrc : src.Dated net (p.slots net)) {e' : Epoch}
    (he : (e, some s) ∈ p.snapshots net src requests)
    (he' : e' ∈ (p.slots net).downloadEpochs.toList)
    (hslot : net.terminalSlot e = net.terminalSlot e') : e = e' := by
  obtain ⟨i, state, hstate, -⟩ := Order.mem_outcomes he
  have hepoch := hsrc.epoch e (mem_downloads he) i state hstate
  have hstate' : src.state (net.terminalSlot e') i = .ok state := hslot ▸ hstate
  rw [← hepoch, hsrc.epoch e' he' i state hstate']

lemma unshared_snapshots (hsrc : src.Dated net (p.slots net)) :
    (p.order net src).Unshared (p.snapshots net src requests).outcome := by
  intro e _ e' he' hslot hne
  cases hs : (p.snapshots net src requests).outcome e with
  | none => rfl
  | some s =>
    rw [Outcomes.outcome, Option.join_eq_some_iff, List.lookup_eq_some_iff] at hs
    obtain ⟨before, after, hsplit, -⟩ := hs
    have hmem : (e, some s) ∈ p.snapshots net src requests := by
      rw [hsplit]
      exact List.mem_append_right _ List.mem_cons_self
    exact absurd (epoch_unique hsrc hmem he' hslot) hne

end Dated

/-! ### Windows and their tasks -/

/-- The windows that a run is to receive. -/
def tasks (p : Plan) (net : Network) (src : Source) (requests : Requests) : List EpochTask :=
  (p.slots net).windowEpochs.toList.filterMap fun e =>
    ((p.snapshots net src requests).windowAt e).map Window.task

lemma windows_tasks (p : Plan) (net : Network) (src : Source) (requests : Requests) :
    (p.tasks net src requests).map (·.window) = p.windows net src requests := by
  rw [tasks, windows, List.map_filterMap]
  refine congrArg (List.filterMap · _) (funext fun e => ?_)
  rw [Option.map_map]
  exact Option.map_id'

/-- The last epochs of the windows that are incomplete. -/
def incomplete (p : Plan) (net : Network) (src : Source) (requests : Requests) : List Epoch :=
  (p.slots net).windowEpochs.toList.filter fun e =>
    ((p.snapshots net src requests).windowAt e).isNone

lemma slideAll_snapshots (p : Plan) (net : Network) (src : Source) (requests : Requests) :
    slideAll (p.slots net) (.start (p.slots net)) ((p.order net src).downloads.map
        fun e => (e, (p.snapshots net src requests).outcome e))
      = (p.tasks net src requests, p.incomplete net src requests) := by
  have hepochs := epochs_snapshots p net src requests
  rw [← hepochs, Outcomes.map_outcome (nodup_snapshots p net src requests)]
  exact Outcomes.slideAll_start (r := p.slots net) hepochs

/-- At its start an analysis has the windows of the snapshots before it. -/
lemma sound_start (p : Plan) (net : Network) (src : Source) (store : Store σ) (requests : Requests)
    (contents : σ) : Analysis.Sound (p.commission net src store) contents
      (p.snapshots net src requests).outcome (p.tasks net src requests)
      (p.incomplete net src requests) (.start (p.commission net src store) requests contents) := by
  let f := (p.snapshots net src requests).outcome
  let xs := (p.order net src).downloads.map fun e => (e, f e)
  have hstart : Analysis.Sound (p.commission net src store) contents f
      (slideAll (p.slots net) (.start (p.slots net)) xs).1
      (slideAll (p.slots net) (.start (p.slots net)) xs).2
      (.start (p.commission net src store) requests contents) :=
    Analysis.sound_start requests contents fun x hx =>
      Outcomes.outcome_of_mem (nodup_snapshots p net src requests) hx
  rw [slideAll_snapshots] at hstart
  exact hstart

/-- An analysis that nobody can move on is complete, if it has not crashed and its windows are
assembled. -/
lemma completed_of_finished {a : Analysis σ} (hsrc : src.Placed)
    (hf : (p.order net src).Unshared (p.snapshots net src requests).outcome)
    (hs : Analysis.Steps (p.commission net src store)
      (.start (p.commission net src store) requests contents) a)
    (hfin : Analysis.Finished (p.commission net src store) a) (hcrash : a.hasCrashed = false)
    (hended : a.download.assembling = false) :
    ∃ queued log, Completed p net src store requests contents a queued log := by
  have hstart := sound_start p net src store requests contents
  rcases Analysis.sound_steps hsrc hf hstart hs with hsound | ⟨hc, -⟩
  · obtain ⟨hlost, queued, log, hcounted, hprocessed, hinterleaved, hwritten⟩ :=
      Analysis.sound_finished hsound hfin hended
    rw [windows_tasks] at hprocessed
    exact ⟨queued, log, hlost.symm, hcounted, hprocessed, hinterleaved, hwritten⟩
  · rw [hcrash] at hc
    cases hc

/-- A run that ends well is complete, if epochs with a snapshot have slots of their own. -/
theorem Ends.complete (h : p.Ends net src store requests contents fin)
    (hok : fin.result = .ok report) (hsrc : src.Placed)
    (hf : (p.order net src).Unshared (p.snapshots net src requests).outcome) :
    ∃ a queued log, Completed p net src store requests contents a queued log ∧
      report = ({ a with writer := a.writer.finish store } : Analysis σ).runReport (p.slots net) ∧
        store.close.run (a.writer.finish store).contents = .ok () fin.contents := by
  cases h with
  | refused he => cases hok
  | @concluded r a hr hs hfin =>
    obtain ⟨hcrash, hended, hreport, hclose⟩ := conclude_ok hok
    obtain ⟨queued, log, hdone⟩ := completed_of_finished hsrc hf hs hfin hcrash hended
    exact ⟨a, queued, log, hdone, hreport, hclose⟩

/-- A run that ends well is complete. -/
theorem Ends.completed (h : p.Ends net src store requests contents fin)
    (hok : fin.result = .ok report) (hsrc : src.Placed)
    (hd : ((p.slots net).downloadEpochs.toList.map net.terminalSlot).Nodup) :
    ∃ a queued log, Completed p net src store requests contents a queued log ∧
      report = ({ a with writer := a.writer.finish store } : Analysis σ).runReport (p.slots net) ∧
        store.close.run (a.writer.finish store).contents = .ok () fin.contents :=
  h.complete hok hsrc (Order.unshared_of_nodup hd)

end EpochRewards.Plan
