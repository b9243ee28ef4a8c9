import EpochRewards.Proofs.Contents
import EpochRewards.Proofs.Fetches
import EpochRewards.Proofs.Stores

/-!
Which data ends a run in a fault.

Faults of the passes over a window are contained: the window is abandoned. What is computed from
a bundle afterwards is not. A run over an accepting store succeeds unless a bundle that could be
built overflows in the rows about its first epoch or in the record of one of its validators.
-/

namespace EpochRewards.Plan

variable {p : Plan} {net : Network} {r : SlotRange} {b : Bundle} {w : Window} {ds : List Dispatch}

/-- A window whose bundle can be built, but not all that is computed from it: the summaries of its
first epoch, or the record of a validator of one of its tasks. -/
def Escapes (p : Plan) (net : Network) (r : SlotRange) (w : Window) : Prop :=
  ∃ b, p.bundleOf net w = some b ∧
    (r.writesEpochRows w = true ∧
        ((∃ f, b.epochSummary = .error f) ∨ ∃ f, b.blockSummaries = .error f) ∨
      r.writesValidatorRows w = true ∧
        ∃ t ∈ p.validatorTasks b, ∃ v ∈ t.validators, ∃ f, b.resolve v = .error (.fault f))

/-! ### Windows -/

/-- The messages of a bundle are had if and only if its summaries are. -/
lemma epochMessages_fault :
    (∃ f, p.epochMessages b = .error f) ↔
      (∃ f, b.epochSummary = .error f) ∨ ∃ f, b.blockSummaries = .error f := by
  unfold epochMessages
  cases hs : b.epochSummary with
  | error f => exact ⟨fun _ => .inl ⟨f, rfl⟩, fun _ => ⟨f, rfl⟩⟩
  | ok summary =>
    cases hb : b.blockSummaries with
    | error f => exact ⟨fun _ => .inr ⟨f, rfl⟩, fun _ => ⟨f, rfl⟩⟩
    | ok blocks => exact ⟨nofun, by rintro (⟨_, h⟩ | ⟨_, h⟩) <;> cases h⟩

lemma dispatches_fault {f : Fault} (h : p.dispatches r b = .error f) :
    r.writesEpochRows b.window = true ∧ p.epochMessages b = .error f := by
  unfold dispatches at h
  cases hr : r.writesEpochRows b.window with
  | false =>
    rw [hr] at h
    cases h
  | true =>
    rw [hr, if_pos rfl] at h
    refine ⟨rfl, ?_⟩
    cases hm : p.epochMessages b with
    | error f' =>
      rw [hm] at h
      cases h
      rfl
    | ok ms =>
      rw [hm] at h
      cases h

/-- The attempts of a bundle are those of its tasks. -/
lemma attemptsOf_dispatches (h : p.dispatches r b = .ok ds) :
    attemptsOf ds = if r.writesValidatorRows b.window
      then (p.validatorTasks b).flatMap (·.attempts) else [] := by
  obtain ⟨ms, -, rfl⟩ := dispatches_eq_ok.1 h
  rw [attemptsOf_append, attemptsOf_map_message, List.nil_append]
  split
  · rw [validatorDispatches, attemptsOf_append, attemptsOf_map_task]
    split <;> rfl
  · rfl

/-- The name of a pool does not make a fault. -/
lemma resolve_fault {t : ValidatorTask} {v : ValidatorIndex} {f : Fault} :
    t.resolve v = .error (.fault f) ↔ t.bundle.resolve v = .error (.fault f) := by
  unfold ValidatorTask.resolve
  cases t.bundle.resolve v with
  | error e => exact Iff.rfl
  | ok rec => exact ⟨nofun, nofun⟩

lemma escapes_of_fault {f : Fault} (h : p.dispatchesOf net r w = .error f) : p.Escapes net r w := by
  cases hb : p.bundleOf net w with
  | none =>
    rw [dispatchesOf_none hb] at h
    cases h
  | some b =>
    obtain ⟨hr, hm⟩ := dispatches_fault ((dispatchesOf_fault hb).1 h)
    rw [window_bundleOf hb] at hr
    exact ⟨b, hb, .inl ⟨hr, epochMessages_fault.1 ⟨f, hm⟩⟩⟩

lemma escapes_of_attempt {x : Attempt} (h : p.dispatchesOf net r w = .ok ds)
    (hx : x ∈ attemptsOf ds) (hf : x.IsFault) : p.Escapes net r w := by
  cases hb : p.bundleOf net w with
  | none =>
    rw [dispatchesOf_none hb] at h
    cases h
    cases hx
  | some b =>
    obtain ⟨more, hmore, rfl⟩ := (dispatchesOf_some hb).1 h
    rw [attemptsOf_append_done, attemptsOf_dispatches hmore, window_bundleOf hb] at hx
    split at hx
    · next hr =>
      obtain ⟨t, ht, hx⟩ := List.mem_flatMap.1 hx
      obtain ⟨v, hv, rfl⟩ := List.mem_map.1 hx
      obtain ⟨f, hf⟩ := hf
      have hbundle := bundle_validatorTasks ht
      exact ⟨b, hb, .inr ⟨hr, t, ht, v, hv, f, hbundle ▸ resolve_fault.1 hf⟩⟩
    · cases hx

/-- A window that is dispatched and whose attempts do not end in faults does not escape. -/
lemma not_escapes (h : p.dispatchesOf net r w = .ok ds) (hf : ∀ x ∈ attemptsOf ds, ¬ x.IsFault) :
    ¬ p.Escapes net r w := by
  rintro ⟨b, hb, hcases⟩
  have hwindow := window_bundleOf hb
  obtain ⟨more, hmore, rfl⟩ := (dispatchesOf_some hb).1 h
  rw [attemptsOf_append_done] at hf
  rcases hcases with ⟨hr, hsummaries⟩ | ⟨hr, t, ht, v, hv, f, hfault⟩
  · obtain ⟨ms, hm, -⟩ := dispatches_eq_ok.1 hmore
    rw [hwindow, if_pos hr] at hm
    obtain ⟨f, hm'⟩ := (epochMessages_fault (p := p)).2 hsummaries
    rw [hm] at hm'
    cases hm'
  · refine hf (t.resolve v) ?_ ⟨f, ?_⟩
    · rw [attemptsOf_dispatches hmore, hwindow, if_pos hr]
      exact List.mem_flatMap.2 ⟨t, ht, List.mem_map.2 ⟨v, hv, rfl⟩⟩
    · rw [← bundle_validatorTasks ht] at hfault
      exact resolve_fault.2 hfault

/-- What is dispatched of windows and can be attempted without faults comes of windows that do not
escape, and what cannot comes of one that does. -/
lemma escapes_of_attempts {ws : List Window} {report : DispatchReport} {x : Attempt}
    (h : p.processAll net r ws = .ok (report, ds)) (hx : x ∈ attemptsOf ds) (hf : x.IsFault) :
    ∃ w ∈ ws, p.Escapes net r w := by
  obtain ⟨dss, hdss, rfl, -⟩ := processAll_dispatches h
  clear h
  induction hdss with
  | nil => cases hx
  | cons hd _ ih =>
    rw [List.flatten_cons, attemptsOf_append] at hx
    rcases List.mem_append.1 hx with hx | hx
    · exact ⟨_, List.mem_cons_self, escapes_of_attempt hd hx hf⟩
    · obtain ⟨w, hw, hescapes⟩ := ih hx
      exact ⟨w, List.mem_cons_of_mem _ hw, hescapes⟩

lemma not_escapes_of_processAll {ws : List Window} {report : DispatchReport}
    (h : p.processAll net r ws = .ok (report, ds)) (hf : ∀ x ∈ attemptsOf ds, ¬ x.IsFault) :
    ∀ w ∈ ws, ¬ p.Escapes net r w := by
  obtain ⟨dss, hdss, rfl, -⟩ := processAll_dispatches h
  clear h
  induction hdss with
  | nil => exact nofun
  | cons hd _ ih =>
    rw [List.flatten_cons, attemptsOf_append] at hf
    intro w hw
    rcases List.mem_cons.1 hw with rfl | hw
    · exact not_escapes hd fun x hx => hf x (List.mem_append_left _ hx)
    · exact ih (fun x hx => hf x (List.mem_append_right _ hx)) w hw

/-! ### Runs -/

variable {σ : Type} {src : Source} {store : Store σ} {requests : Requests} {contents : σ}
  {fin : RunEnd σ}

/-- The windows of a range can be counted if the epochs after it can. -/
lemma windowCount_ok (hle : r.initEpoch ≤ r.finalEpoch) (hlast : r.finalEpoch + 3 ≤ Word.max) :
    ∃ n, r.windowCount = .ok n := by
  have harith (a b m : Nat) (h : a + 3 ≤ m) : a - b + 1 < m + 1 ∧ a - b + 1 + 2 < m + 1 := by
    omega
  obtain ⟨hepochs, hwindows⟩ := harith _ r.initEpoch _ hlast
  simp only [SlotRange.windowCount, SlotRange.epochCount, Calc.bind_ok, Word.add_ok]
  exact ⟨_, _, ⟨_, if_pos hle, hepochs, rfl⟩, hwindows, rfl⟩

/-- A plan that is accepted, over slots that can be counted, is refused for its sizes only. -/
lemma range_eq_ok (hv : p.validate = .ok ()) (hc : p.checkSizes = .ok ())
    (hslots : (net.epochOf p.finalSlot + 3) * net.slotsPerEpoch.val ≤ Word.max) :
    p.range net = .ok (p.slots net) := by
  have hle : p.initSlot ≤ p.finalSlot := by
    unfold validate at hv
    split at hv
    · cases hv
    · next h => exact Nat.le_of_not_lt h
  have hrange : SlotRange.ofSlots net p.initSlot p.finalSlot = .ok (p.slots net) :=
    if_neg (Nat.not_lt.2 hle)
  have hepochs : net.epochOf p.initSlot ≤ net.epochOf p.finalSlot := Nat.div_le_div_right hle
  have hlast : net.epochOf p.finalSlot + 3 ≤ Word.max :=
    Nat.le_trans (Nat.le_mul_of_pos_right _ net.slotsPerEpoch.pos) hslots
  obtain ⟨n, hcount⟩ : ∃ n, (p.slots net).windowCount = .ok n := windowCount_ok hepochs hlast
  unfold range
  rw [hv, hrange]
  simp only [Calc.bind_ok, Calc.fault_ok, Calc.pure_ok]
  exact ⟨(), rfl, _, rfl, n, hcount, (), hc, rfl⟩

/-- An analysis of windows that do not escape does not crash. -/
lemma no_hazard (hslots : (net.epochOf p.finalSlot + 3) * net.slotsPerEpoch.val ≤ Word.max)
    (hsafe : ∀ w ∈ p.windows net src requests, ¬ p.Escapes net (p.slots net) w) :
    ¬ Analysis.Hazard (p.commission net src store) (p.tasks net src requests) := by
  have hfits : (p.slots net).Fits net := SlotRange.fits_ofSlots hslots
  intro hazard
  cases hazard with
  | fetching h =>
    obtain ⟨e, he, q, q', fault, hfault⟩ := h
    exact (Source.gives_snapshot (hfits.counts_downloads e he)).faultless hfault
  | @dispatching task _ _ ht h =>
    refine hsafe task.window ?_ (escapes_of_fault (process_fault h))
    rw [← windows_tasks]
    exact List.mem_map.2 ⟨task, ht, rfl⟩
  | @resolving received _ _ _ ht h hx hf =>
    obtain ⟨w, hw, hescapes⟩ := escapes_of_attempts h hx hf
    refine hsafe w ?_ hescapes
    rw [← windows_tasks]
    exact (ht.map _).subset hw

/-- **What takes a run down.** Under every schedule, a run of an accepted plan over a store that
accepts every call ends with a report if and only if the sizes of the plan are within the limits
and no window escapes. -/
theorem Ends.succeeds_iff (hv : p.validate = .ok ())
    (hslots : (net.epochOf p.finalSlot + 3) * net.slotsPerEpoch.val ≤ Word.max)
    (hsrc : src.Placed) (ha : store.Accepting) (hopen : store.isClosed contents = false)
    (h : p.Ends net src store requests contents fin) :
    (∃ report, fin.result = .ok report) ↔
      p.checkSizes = .ok () ∧
        ∀ w ∈ p.windows net src requests, ¬ p.Escapes net (p.slots net) w := by
  have hfits : (p.slots net).Fits net := SlotRange.fits_ofSlots hslots
  have hdistinct := hfits.nodup_lastSlots
  constructor
  · rintro ⟨report, hok⟩
    obtain ⟨a, queued, log, hdone, -, -⟩ := h.completed hok hsrc hdistinct
    refine ⟨?_, not_escapes_of_processAll hdone.dispatched hdone.interleaved.faultless⟩
    cases h with
    | refused he => cases hok
    | concluded hr =>
      simp only [range, Calc.bind_ok, Calc.fault_ok] at hr
      obtain ⟨_, -, _, -, _, -, u, hu, -⟩ := hr
      exact hu
  · -- Without a hazard no party crashes, and a finished run that did not crash is concluded.
    rintro ⟨hc, hsafe⟩
    cases h with
    | refused he =>
      rw [range_eq_ok hv hc hslots] at he
      cases he
    | @concluded r a hr hs hf =>
      have hunshared : (p.order net src).Unshared (p.snapshots net src requests).outcome :=
        Order.unshared_of_nodup hdistinct
      have hstart := sound_start p net src store requests contents
      have hcrash : a.hasCrashed = false := by
        by_contra hcrash
        exact no_hazard hslots hsafe (Analysis.hazard_of_crashed hsrc hunshared hstart hs
          (by simpa using hcrash))
      rcases Analysis.sound_steps hsrc hunshared hstart hs with hsound | ⟨hcrashed, -⟩
      · have hended := Analysis.ended_of_finished hdistinct hsound hf
        obtain ⟨-, queued, log, -, -, -, hwritten⟩ := Analysis.sound_finished hsound hf hended
        have hwriter : (a.writer.finish store).Open store := by
          rw [hwritten]
          exact Writer.open_finish ha (Writer.open_handle_all ha _ (Writer.open_start hopen) _)
        obtain ⟨closed, hclose⟩ := ha.close _ hwriter.isOpen
        exact ⟨_, conclude_eq_ok hcrash hended hclose⟩
      · rw [hcrash] at hcrashed
        cases hcrashed

/-- A run over the snapshots of `briefSource` ends well: none of its windows escapes. -/
theorem brief_succeeds :
    briefPlan.validate = .ok () ∧
      (briefNetwork.epochOf briefPlan.finalSlot + 3) * briefNetwork.slotsPerEpoch.val ≤ Word.max ∧
      briefSource.Placed ∧ (MemoryStore.store.isClosed .empty = false) ∧ ∃ fin,
        briefPlan.Ends briefNetwork briefSource MemoryStore.store .none .empty fin ∧
          (∃ report, fin.result = .ok report) ∧
            ∀ w ∈ briefPlan.windows briefNetwork briefSource .none,
              ¬ briefPlan.Escapes briefNetwork (briefPlan.slots briefNetwork) w := by
  have hends := ends_run briefPlan briefNetwork briefSource MemoryStore.store .none .empty
  have hok : (briefPlan.run briefNetwork briefSource MemoryStore.store false .none
      .empty).result.toOption.isSome = true := by cbv
  have hslots :
      (briefNetwork.epochOf briefPlan.finalSlot + 3) * briefNetwork.slotsPerEpoch.val ≤ Word.max := by
    decide
  have hreport := Calc.ok_of_isSome hok
  have hplaced := faithful_briefSource.placed
  have hsafe := (Ends.succeeds_iff rfl hslots hplaced MemoryStore.accepting_store rfl hends).1 hreport
  exact ⟨rfl, hslots, hplaced, rfl, _, hends, hreport, hsafe.2⟩

/-- Two validators whose balances of slot 0 are too large to be added up. -/
def richSource : Source where
  block slot _ := .error (.notFound .block slot)
  report slot _ := .error (.notFound .report slot)
  duties e _ := .ok ⟨[], [⟨0, e⟩]⟩
  state slot _ :=
    .ok { Snapshot.placeholder slot slot with
      stateRoot := .ofNat 32 1
      validators := List.replicate 2 ⟨.zero, 32, false, 0, 0, farFuture, farFuture⟩
      balances := List.replicate 2 (if slot = 0 then 2 ^ 63 else 32)
      blockRoots := [.zero, .zero] }

/-- The first epoch alone. -/
def originPlan : Plan := { briefPlan with finalSlot := 0 }

lemma placed_richSource : richSource.Placed := by
  intro slot i s hs
  cases hs
  rfl

lemma crashed_originPlan : (originPlan.run briefNetwork richSource MemoryStore.store false .none
    .empty).result = .error (.error .crashed) := by cbv

/-- One snapshot can take a run down. -/
theorem not_always_succeeds :
    ¬ ∀ (p : Plan) (net : Network) (src : Source) (contents : MemoryStore)
      (fin : RunEnd MemoryStore), p.validate = .ok () →
      (net.epochOf p.finalSlot + 3) * net.slotsPerEpoch.val ≤ Word.max → src.Placed →
      MemoryStore.store.isClosed contents = false →
      p.Ends net src MemoryStore.store .none contents fin → ∃ report, fin.result = .ok report := by
  intro hall
  obtain ⟨report, hreport⟩ := hall originPlan briefNetwork richSource .empty _ rfl (by decide)
    placed_richSource rfl (ends_run _ _ _ _ _ _)
  rw [crashed_originPlan] at hreport
  cases hreport

end EpochRewards.Plan
