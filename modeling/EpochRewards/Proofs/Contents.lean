import EpochRewards.Proofs.Ends
import Mathlib

/-!
The contents of a store after a run.

Which rows a run leaves in an empty store follows from the snapshots alone: the schedule shows in
the order of the validator rows only.
-/

namespace EpochRewards

/-! ### Logs -/

/-- Rows of the crew are in a table of their own. -/
lemma rowsIn_log_sent {log : List Entry} {t : Table}
    (h : ∀ row ∈ log.filterMap Sum.getRight?, row.table ≠ t) :
    rowsIn t (log.map Entry.message) = rowsIn t (log.filterMap Sum.getLeft?) := by
  induction log with
  | nil => rfl
  | cons x log ih =>
    cases x with
    | inl m =>
      have hrest := ih fun row hr => h row (by simpa using hr)
      show rowsIn t ([m] ++ log.map Entry.message) = rowsIn t ([m] ++ log.filterMap Sum.getLeft?)
      rw [rowsIn_append, rowsIn_append, hrest]
    | inr row =>
      have hrow : row.table ≠ t := h row (by simp)
      have hrest := ih fun row hr => h row (by simp [hr])
      show rowsIn t (.row row :: log.map Entry.message) = rowsIn t (log.filterMap Sum.getLeft?)
      rw [rowsIn_cons, if_neg hrow, List.nil_append, hrest]

lemma rowsIn_log_resolved {log : List Entry} {t : Table}
    (h : ∀ row ∈ log.filterMap Sum.getRight?, row.table = t)
    (hs : rowsIn t (log.filterMap Sum.getLeft?) = []) :
    rowsIn t (log.map Entry.message) = log.filterMap Sum.getRight? := by
  induction log with
  | nil => rfl
  | cons x log ih =>
    cases x with
    | inl m =>
      have hsplit : rowsIn t [m] ++ rowsIn t (log.filterMap Sum.getLeft?) = [] := by
        rw [← rowsIn_append]
        exact hs
      obtain ⟨hm, hl⟩ := List.append_eq_nil_iff.1 hsplit
      have hrest := ih (fun row hr => h row (by simpa using hr)) hl
      show rowsIn t ([m] ++ log.map Entry.message) = log.filterMap Sum.getRight?
      rw [rowsIn_append, hm, List.nil_append, hrest]
    | inr row =>
      have hrow : row.table = t := h row (by simp)
      have hrest := ih (fun row hr => h row (by simp [hr])) hs
      show rowsIn t (.row row :: log.map Entry.message) = row :: log.filterMap Sum.getRight?
      rw [rowsIn_cons, if_pos hrow, hrest]
      rfl

lemma isDelete_log {log : List Entry}
    (h : ∀ m ∈ log.filterMap Sum.getLeft?, m.isDelete = false) :
    ∀ m ∈ log.map Entry.message, m.isDelete = false := by
  intro m hm
  obtain ⟨x, hx, rfl⟩ := List.mem_map.1 hm
  cases x with
  | inl m => exact h m (List.mem_filterMap.2 ⟨_, hx, rfl⟩)
  | inr row => rfl

/-! ### Windows -/

lemma Outcomes.mem_of_back {xs : Outcomes} {e n : Nat} {s : Snapshot} (h : xs.back e n = some s)
    (hn : n ≤ e) : (e - n, some s) ∈ xs := by
  rw [back, if_neg (Nat.not_lt.2 hn), Option.join_eq_some_iff, List.lookup_eq_some_iff] at h
  obtain ⟨l₁, l₂, rfl, -⟩ := h
  exact List.mem_append_right _ List.mem_cons_self

/-- The snapshots of a window are those of its epochs. -/
lemma Outcomes.mem_of_windowAt {xs : Outcomes} {e : Nat} {w : Window}
    (h : xs.windowAt e = some w) :
    (e, some w.next) ∈ xs ∧ (1 ≤ e → (e - 1, some w.current) ∈ xs) ∧
      (windowReach ≤ e → (e - windowReach, some w.prev) ∈ xs) ∧
        (e < windowReach → w.prev.isPlaceholder = true) := by
  simp only [windowAt, Option.bind_eq_bind, Option.bind_eq_some_iff, Option.pure_def,
    Option.some.injEq] at h
  obtain ⟨prev, hprev, current, hcurrent, next, hnext, rfl⟩ := h
  refine ⟨mem_of_back hnext (Nat.zero_le e), mem_of_back hcurrent, mem_of_back hprev, ?_⟩
  intro (hr : e < 2)
  rw [back, if_pos hr] at hprev
  cases hprev
  rfl

namespace Plan

variable {p : Plan} {net : Network} {src : Source} {requests : Requests}

lemma taken_snapshots (hsrc : src.Faithful net) {e : Nat} {s : Snapshot} (he : net.Counts e)
    (h : (e, some s) ∈ p.snapshots net src requests) : s.TakenAt net e := by
  obtain ⟨i, state, hstate, hs⟩ := Order.mem_outcomes h
  obtain ⟨hslot, hepoch, hreal⟩ := hsrc _ i state hstate
  rw [hs]
  exact ⟨hepoch.trans (Network.epochOf_terminalSlot he), hslot, hreal⟩

/-- The windows of a run end at their epochs. -/
lemma endsAt_windowAt (hsrc : src.Faithful net) {e : Nat} {w : Window} (he : net.Counts e)
    (h : (p.snapshots net src requests).windowAt e = some w) : w.EndsAt net e := by
  obtain ⟨hnext, -, hprev, hbefore⟩ := Outcomes.mem_of_windowAt h
  exact ⟨taken_snapshots hsrc he hnext,
    fun hr => taken_snapshots hsrc (he.mono (Nat.sub_le _ _)) (hprev hr), hbefore⟩

/-- Windows that a test lets through according to the epochs in which they end. -/
lemma filterMap_filter_windows {f : Nat → Option Window} {test : Window → Bool}
    (gate : Nat → Bool) {g : Window → Option Bundle} {es : List Nat}
    (h : ∀ e ∈ es, ∀ w, f e = some w → test w = gate e) :
    ((es.filterMap f).filter test).filterMap g
      = (es.filter gate).filterMap fun e => (f e).bind g := by
  induction es with
  | nil => rfl
  | cons e es ih =>
    have hrest := ih fun x hx => h x (List.mem_cons_of_mem _ hx)
    rw [List.filter_cons]
    cases hf : f e with
    | none =>
      rw [List.filterMap_cons_none hf, hrest]
      split
      · rw [List.filterMap_cons_none (by rw [hf]; rfl)]
      · rfl
    | some w =>
      rw [List.filterMap_cons_some hf, List.filter_cons, h e List.mem_cons_self w hf]
      split
      · rw [List.filterMap_cons, List.filterMap_cons, hf, hrest]
        rfl
      · exact hrest

/-! ### What is left in the store -/

/-- The bundle of the window that ends in an epoch, if its snapshots could be had and its passes
succeed. -/
def bundleAt (p : Plan) (net : Network) (src : Source) (requests : Requests) (e : Epoch) :
    Option Bundle :=
  ((p.snapshots net src requests).windowAt e).bind (p.bundleOf net)

/-- The epochs that are asked for. -/
def epochs (p : Plan) (net : Network) : List Epoch := (p.slots net).analysedEpochs.toList

/-- The requested epochs that have a bundle, with the analysed validators of each. -/
def pairs (p : Plan) (net : Network) (src : Source) (requests : Requests) :
    List (Epoch × ValidatorIndex) :=
  (p.epochs net).flatMap fun e =>
    ((p.bundleAt net src requests e).elim [] p.analysed).map (e, ·)

/-- The record of a validator for an epoch, if there is one. -/
def recordAt (p : Plan) (net : Network) (src : Source) (requests : Requests)
    (x : Epoch × ValidatorIndex) : Option ValidatorRecord := do
  ((← p.bundleAt net src requests x.1).resolve x.2).toOption

lemma fits_slots (h : net.Counts (net.epochOf p.finalSlot + windowReach)) :
    (p.slots net).Fits net := SlotRange.fits_ofSlots h

/-- The bundles whose validators are accounted are those of the requested epochs. -/
lemma bundles_records (hsrc : src.Faithful net) (hfits : (p.slots net).Fits net) :
    ((p.windows net src requests).filter (p.slots net).writesValidatorRows).filterMap
      (p.bundleOf net) = (p.epochs net).filterMap (p.bundleAt net src requests) := by
  rw [windows, filterMap_filter_windows (p.slots net).analysedEpochs.contains,
    hfits.filter_validatorRows]
  · rfl
  · intro e he w hw
    have hle := hfits.le_lastWindow he
    exact SlotRange.writesValidatorRows_eq hfits hle
      (endsAt_windowAt hsrc (hfits.counts_of_le hle) hw)

/-- The bundles whose other rows are written are those of two epochs later. -/
lemma bundles_rows (hsrc : src.Faithful net) (hfits : (p.slots net).Fits net) :
    ((p.windows net src requests).filter (p.slots net).writesEpochRows).filterMap
      (p.bundleOf net)
      = (p.epochs net).filterMap fun e => p.bundleAt net src requests (e + windowReach) := by
  rw [windows, filterMap_filter_windows _, hfits.filter_epochRows, List.filterMap_map]
  · rfl
  · intro e he w hw
    have hle := hfits.le_lastWindow he
    exact SlotRange.writesEpochRows_eq hfits hle
      (endsAt_windowAt hsrc (hfits.counts_of_le hle) hw)

/-- The records of the bundles are those of the pairs. -/
lemma recordRows_pairs :
    ((p.epochs net).filterMap (p.bundleAt net src requests)).flatMap p.recordRows
      = (p.pairs net src requests).filterMap fun x =>
        (p.recordAt net src requests x).map Row.validator := by
  unfold pairs
  induction p.epochs net with
  | nil => rfl
  | cons e es ih =>
    rw [List.flatMap_cons, List.filterMap_append, ← ih]
    cases hb : p.bundleAt net src requests e with
    | none => rw [List.filterMap_cons_none hb]; rfl
    | some b =>
      have hrecords : (fun x => (p.recordAt net src requests x).map Row.validator) ∘ (e, ·)
          = fun v => (b.resolve v).toOption.map Row.validator := by
        funext v
        rw [Function.comp_apply, recordAt, hb]
        rfl
      rw [List.filterMap_cons_some hb, List.flatMap_cons, Option.elim_some, List.filterMap_map,
        hrecords]
      rfl

lemma nodup_analysed (p : Plan) (b : Bundle) : (p.analysed b).Nodup :=
  b.nodup_analysedValidators.filter _

/-- No validator is analysed twice for an epoch. -/
lemma nodup_pairs (p : Plan) (net : Network) (src : Source) (requests : Requests) :
    (p.pairs net src requests).Nodup := by
  refine List.nodup_flatMap.2 ⟨fun e _ => ?_, ?_⟩
  · refine List.Nodup.map (fun v v' h => (Prod.mk.inj h).2) ?_
    cases p.bundleAt net src requests e with
    | none => exact List.nodup_nil
    | some b => exact nodup_analysed p b
  · refine (EpochSpan.nodup_toList _).imp fun {e e'} hne => ?_
    intro x hx hx'
    obtain ⟨v, -, rfl⟩ := List.mem_map.1 hx
    obtain ⟨v', -, h⟩ := List.mem_map.1 hx'
    exact hne (Prod.mk.inj h).1.symm

/-! ### Runs -/

variable {fin : RunEnd MemoryStore} {report : RunReport}

lemma rows_close {s s' : MemoryStore} (h : MemoryStore.store.close.run s = .ok () s') (t : Table) :
    s'.rows t = s.rows t := by
  have hclose : MemoryStore.close s = .ok () s' := h
  simp only [MemoryStore.close, Pass.bind_ok, Pass.get_ok] at hclose
  obtain ⟨_, _, ⟨rfl, rfl⟩, hclose⟩ := hclose
  split at hclose
  · cases hclose
  · cases hclose
    rfl

/-- What a completed run without replacements leaves in an empty store is the rows of its log. -/
lemma Completed.rows {a : Analysis MemoryStore} {queued : List Dispatch} {log : List Entry}
    (h : Completed p net src MemoryStore.store requests .empty a queued log)
    (hy : p.Yields net (p.slots net) (p.windows net src requests) queued)
    (hc : MemoryStore.store.close.run (a.writer.finish MemoryStore.store).contents
      = .ok () fin.contents) (t : Table) :
    fin.contents.rows t = rowsIn t (log.map Entry.message) := by
  have hfaithful := Writer.faithful_handle_all p.batchSize (s := MemoryStore.empty) rfl
    Writer.faithful_start (log.map Entry.message)
  rw [← h.written] at hfaithful
  have hopen := MemoryStore.closed_carryOut_all .empty (log.map Entry.message)
  have hadding : ∀ m ∈ log.map Entry.message, m.isDelete = false := by
    refine isDelete_log ?_
    rw [h.sent]
    exact hy.adding
  rw [rows_close hc, (Writer.finish_faithful hopen hfaithful).1, MemoryStore.rows_carryOut_all,
    foldl_effect hadding]
  have hempty : MemoryStore.empty.rows t = [] := PerTable.get_fill [] t
  rw [hempty, List.nil_append]

lemma table_taskRows {ds : List Dispatch} : ∀ row ∈ taskRows ds, row.table = .validatorRewards := by
  intro row hrow
  obtain ⟨t, -, hrow⟩ := List.mem_flatMap.1 hrow
  obtain ⟨v, -, hv⟩ := List.mem_filterMap.1 hrow
  obtain ⟨rec, -, rfl⟩ := Option.map_eq_some_iff.1 hv
  rfl

/-- **What a run leaves in an empty store.** Under every schedule, a run without pools and
replacements that ends well leaves, up to order, one row for each validator of each requested
epoch that has a bundle and can be resolved against it, and in every other table the rows about
the requested epochs one after another, each of the bundle two epochs later. -/
theorem Ends.rows_left (hpools : p.pools = []) (hreplace : p.replaceRows = false)
    (hslots : (net.epochOf p.finalSlot + 3) * net.slotsPerEpoch.val ≤ Word.max)
    (hsrc : src.Faithful net) (h : p.Ends net src MemoryStore.store requests .empty fin)
    (hok : fin.result = .ok report) :
    (p.pairs net src requests).Nodup ∧
      (fin.contents.rows .validatorRewards).Perm
        ((p.pairs net src requests).filterMap fun x =>
          (p.recordAt net src requests x).map Row.validator) ∧
      ∀ t, t ≠ .validatorRewards →
        Bundle.allEpochRows
            ((p.epochs net).filterMap fun e => p.bundleAt net src requests (e + windowReach)) t
          = .ok (fin.contents.rows t) := by
  have hfits : (p.slots net).Fits net := fits_slots hslots
  have hdistinct : ((p.slots net).downloadEpochs.toList.map net.terminalSlot).Nodup :=
    Network.nodup_terminalSlots (EpochSpan.nodup_toList _) hfits.counts_downloads
  obtain ⟨a, queued, log, hdone, -, hclose⟩ := h.completed hok hsrc.placed hdistinct
  have hyields := processAll_yields hpools hreplace hdone.dispatched
  have hrows := hdone.rows hyields hclose
  have hcrew : ∀ row ∈ log.filterMap Sum.getRight?, row.table = .validatorRewards :=
    fun row hrow => table_taskRows row (hdone.resolved.mem_iff.1 hrow)
  have hrecords := hyields.records
  rw [bundles_records hsrc hfits, recordRows_pairs] at hrecords
  refine ⟨nodup_pairs p net src requests, ?_, fun t ht => ?_⟩
  · have hempty : rowsIn .validatorRewards (log.filterMap Sum.getLeft?) = [] := by
      have hnone := hyields.rows .validatorRewards
      rw [Bundle.allEpochRows_validatorRewards] at hnone
      rw [hdone.sent]
      exact (Except.ok.inj hnone).symm
    rw [hrows, rowsIn_log_resolved hcrew hempty, ← hrecords]
    exact hdone.resolved
  · have hother : ∀ row ∈ log.filterMap Sum.getRight?, row.table ≠ t := by
      intro row hrow htable
      exact ht (htable.symm.trans (hcrew row hrow))
    rw [hrows, rowsIn_log_sent hother, hdone.sent, ← bundles_rows hsrc hfits]
    exact hyields.rows t

def briefNetwork : Network :=
  { Network.custom with
    slotsPerEpoch := ⟨1, Nat.one_pos⟩
    rootRing := ⟨2, Nat.two_pos⟩
    balanceIncrement := ⟨1, Nat.one_pos⟩ }

/-- One validator, no block ever, and no state of slot 3. -/
def briefSource : Source where
  block slot _ := .error (.notFound .block slot)
  report slot _ := .error (.notFound .report slot)
  duties e _ := .ok ⟨[], [⟨0, e⟩]⟩
  state slot _ :=
    if slot = 3 then .error (.notFound .state slot)
    else
      .ok { Snapshot.placeholder slot slot with
        stateRoot := .ofNat 32 1
        validators := [⟨.zero, 32, false, 0, 0, farFuture, farFuture⟩]
        balances := [32 + slot]
        blockRoots := [.zero, .zero] }

/-- The first two epochs, through the smallest cache and queue there are. -/
def briefPlan : Plan :=
  { Plan.default with
    finalSlot := 1
    workers := ⟨2, Nat.two_pos⟩
    batchSize := 2
    queueCapacity := ⟨1, Nat.one_pos⟩
    cacheCapacity := ⟨1, Nat.one_pos⟩ }

lemma faithful_briefSource : briefSource.Faithful briefNetwork := by
  intro slot i s hs
  simp only [briefSource] at hs
  split at hs
  · cases hs
  · cases hs
    exact ⟨rfl, (Nat.div_one slot).symm, rfl⟩

/-- The records of both epochs are left, and the duties of the first one: those of the second one
would need the snapshot that cannot be had. -/
theorem brief_rows_left :
    briefPlan.pools = [] ∧ briefPlan.replaceRows = false ∧
      (briefNetwork.epochOf briefPlan.finalSlot + 3) * briefNetwork.slotsPerEpoch.val ≤ Word.max ∧
      briefSource.Faithful briefNetwork ∧ ∃ fin report,
        briefPlan.Ends briefNetwork briefSource MemoryStore.store .none .empty fin ∧
          fin.result = .ok report ∧
            ((fin.contents.rows .validatorRewards).map Row.slot).Perm [0, 1] ∧
              fin.contents.rows .proposerDuties = [.duty ⟨0, 0, false⟩] := by
  have hends := ends_run briefPlan briefNetwork briefSource MemoryStore.store .none .empty
  have hok : (briefPlan.run briefNetwork briefSource MemoryStore.store false .none
      .empty).result.toOption.isSome = true := by cbv
  have hslots :
      (briefNetwork.epochOf briefPlan.finalSlot + 3) * briefNetwork.slotsPerEpoch.val ≤ Word.max := by
    decide
  obtain ⟨report, hreport⟩ : ∃ report, (briefPlan.run briefNetwork briefSource MemoryStore.store
      false .none .empty).result = .ok report := by
    cases hr :
        (briefPlan.run briefNetwork briefSource MemoryStore.store false .none .empty).result with
    | ok report => exact ⟨report, rfl⟩
    | error e =>
      rw [hr] at hok
      cases hok
  obtain ⟨-, hrecords, hrows⟩ :=
    Ends.rows_left rfl rfl hslots faithful_briefSource hends hreport
  refine ⟨rfl, rfl, hslots, faithful_briefSource, _, report, hends, hreport, ?_, ?_⟩
  · have hslotsOf : ((briefPlan.pairs briefNetwork briefSource .none).filterMap fun x =>
        (briefPlan.recordAt briefNetwork briefSource .none x).map Row.validator).map Row.slot
        = [0, 1] := by cbv
    rw [← hslotsOf]
    exact hrecords.map _
  · have hduties : Bundle.allEpochRows ((briefPlan.epochs briefNetwork).filterMap fun e =>
        briefPlan.bundleAt briefNetwork briefSource .none (e + windowReach)) .proposerDuties
        = .ok [.duty ⟨0, 0, false⟩] := by cbv
    have hleft := hrows .proposerDuties (by decide)
    rw [hduties] at hleft
    exact (Except.ok.inj hleft).symm

end Plan

end EpochRewards
