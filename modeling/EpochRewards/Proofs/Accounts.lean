import EpochRewards.Proofs.Reports
import Mathlib.Logic.Function.Iterate

/-!
How the windows of a run are accounted for.

The download names the windows that it gives up by the epoch that it has reached, the dispatch
names those it gives up by the last snapshot. For states that tell the epoch both are the same,
so every window of the range is given up by one of the two or has a bundle, and the counter of
the windows that are done with ends at their number.
-/

namespace EpochRewards

/-! ### The counter -/

namespace Plan

variable {p : Plan} {net : Network} {r : SlotRange} {b : Bundle} {w : Window}
  {report report' : DispatchReport} {ds : List Dispatch}

/-- Rows and tasks come before the mark that the window is done with. -/
lemma done_notMem_dispatches (h : p.dispatches r b = .ok ds) : Dispatch.done ∉ ds := by
  obtain ⟨ms, -, rfl⟩ := dispatches_eq_ok.1 h
  refine List.not_mem_append ?_ ?_
  · rintro hmem
    obtain ⟨m, -, hm⟩ := List.mem_map.1 hmem
    cases hm
  · split
    · intro hmem
      rcases List.mem_append.1 hmem with hclear | htask
      · split at hclear
        · cases List.mem_singleton.1 hclear
        · cases hclear
      · obtain ⟨t, -, ht⟩ := List.mem_map.1 htask
        cases ht
    · exact List.not_mem_nil

/-- A window that is processed is done with once, whether it has a bundle or not. -/
lemma count_done_process (h : p.process net r report w = .ok (report', ds)) :
    ds.count .done = 1 := by
  rcases process_ok h with ⟨-, rfl⟩ | ⟨b, more, -, -, hmore, rfl⟩
  · rfl
  · rw [List.count_append, List.count_eq_zero.2 (done_notMem_dispatches hmore)]
    rfl

lemma count_done_processAll {ws : List Window} (h : p.processAll net r ws = .ok (report, ds)) :
    ds.count .done = ws.length := by
  induction ws using List.reverseRecOn generalizing report ds with
  | nil =>
    cases h
    rfl
  | append_singleton ws w ih =>
    obtain ⟨before, done, more, hb, hw, rfl⟩ := processAll_concat.1 h
    rw [List.count_append, ih hb, count_done_process hw, List.length_append, List.length_singleton]

/-- What the report says of one more window. -/
lemma process_report (h : p.process net r report w = .ok (report', ds)) :
    report'.processed = report.processed ++
      ((if (p.bundleOf net w).isSome then [w.next.epoch] else []).filter
        r.analysedEpochs.contains) := by
  simp only [process] at h
  unfold bundleOf
  split at h
  · next e he =>
    cases h
    rw [he]
    exact (List.append_nil _).symm
  · next b hb =>
    obtain ⟨more, hm, h⟩ := Calc.bind_ok.1 h
    cases h
    rw [hb]
    show (if r.analysedEpochs.contains w.next.epoch then _ else _)
      = report.processed ++ [w.next.epoch].filter r.analysedEpochs.contains
    rw [List.filter_singleton, Bool.cond_eq_ite]
    split
    · rfl
    · exact (List.append_nil _).symm

/-- What the report says of all windows. -/
lemma processAll_report {ws : List Window} (h : p.processAll net r ws = .ok (report, ds)) :
    report.processed = ((ws.filter fun w => (p.bundleOf net w).isSome).map (·.next.epoch)).filter
      r.analysedEpochs.contains := by
  induction ws using List.reverseRecOn generalizing report ds with
  | nil =>
    cases h
    rfl
  | append_singleton ws w ih =>
    obtain ⟨before, done, more, hb, hw, rfl⟩ := processAll_concat.1 h
    rw [process_report hw, ih hb, List.filter_append, List.map_append, List.filter_append,
      List.filter_singleton]
    cases (p.bundleOf net w).isSome <;> rfl

end Plan

namespace Analysis

variable {σ : Type} {k : Commission σ} {a a' : Analysis σ}

lemma progress_start (requests : Requests) (contents : σ) :
    (start k requests contents).progress = .ofRange k.order.range := rfl

lemma progress_dispatch (h : a.dispatch k = some a') :
    a'.progress = a.progress ∨ a'.progress = a.progress.advance := by
  unfold dispatch at h
  split at h
  · split at h
    · next d rest _ =>
      unfold queueDispatch at h
      split at h
      · left
        split at h <;> cases h
        rfl
      · left
        split at h
        · cases h
          rfl
        · split at h <;> cases h
          rfl
      · right
        cases h
        rfl
    · left
      obtain ⟨⟨task, download⟩, hr, rfl⟩ := Option.map_eq_some_iff.1 h
      obtain ⟨queue, rfl⟩ := Download.receive_keeps hr
      dsimp only [dispatchNext]
      split <;> rfl
  · cases h

lemma progress_download {branch : Cache.Branch} {party : Download.Party} {d : Download}
    (h : a.download.advance k.order branch party = some d) :
    ({ a with download := d } : Analysis σ).progress = a.progress ∨
      ({ a with download := d } : Analysis σ).progress = a.progress.advance := by
  rcases Download.advance_counts h with ⟨-, hsame⟩ | ⟨e, -, hmore⟩
  · exact .inl hsame
  · exact .inr hmore

/-- A move leaves the counter as it is or advances it by one window. -/
theorem progress_move (h : Move k a a') :
    a'.progress = a.progress ∨ a'.progress = a.progress.advance := by
  obtain ⟨branch, actor, h⟩ := h
  cases actor with
  | fetcher =>
    obtain ⟨d, hd, rfl⟩ := Option.map_eq_some_iff.1 h
    exact progress_download hd
  | assembler =>
    obtain ⟨d, hd, rfl⟩ := Option.map_eq_some_iff.1 h
    exact progress_download hd
  | dispatcher => exact progress_dispatch h
  | worker m =>
    obtain ⟨⟨crew, row⟩, -, rfl⟩ := Option.map_eq_some_iff.1 h
    exact .inl rfl
  | writer =>
    simp only [advance, write] at h
    split at h <;> cases h
    exact .inl rfl

/-- The counter of a run starts at zero and is advanced window by window. -/
theorem progress_steps {requests : Requests} {contents : σ}
    (h : Steps k (.start k requests contents) a) :
    ∃ j, a.progress = Progress.advance^[j] (.ofRange k.order.range) := by
  induction h with
  | refl => exact ⟨0, progress_start requests contents⟩
  | tail _ hm ih =>
    obtain ⟨j, hj⟩ := ih
    rcases progress_move hm with hsame | hmore
    · exact ⟨j, hsame.trans hj⟩
    · refine ⟨j + 1, ?_⟩
      rw [hmore, hj, Function.iterate_succ_apply']

/-- What the counter is to reach does not change. -/
lemma target_steps {requests : Requests} {contents : σ}
    (h : Steps k (.start k requests contents) a) :
    a.progress.target = k.order.range.windowCount.toOption.getD 0 := by
  obtain ⟨j, hj⟩ := progress_steps h
  have hsame : Function.Semiconj Progress.target Progress.advance id := fun _ => rfl
  rw [hj, (hsame.iterate_right j).eq, Function.iterate_id]
  rfl

end Analysis

/-! ### Windows that are given up, and the others -/

/-- Windows that pass a test, named by their last epochs. -/
lemma map_filter_filterMap {α : Type} {es : List Nat} {f : Nat → Option α} {test : α → Bool}
    {name : α → Nat} (h : ∀ e ∈ es, ∀ w, f e = some w → name w = e) :
    ((es.filterMap f).filter test).map name = es.filter fun e => (f e).any test := by
  induction es with
  | nil => rfl
  | cons e es ih =>
    have hrest := ih fun x hx => h x (List.mem_cons_of_mem _ hx)
    cases hf : f e with
    | none => simp [hf, hrest]
    | some w =>
      have hname := h e List.mem_cons_self w hf
      by_cases hw : test w = true <;> simp [hf, hw, hname, hrest]

/-- What fails a test, what passes it and then fails another one, and what passes both. -/
lemma three_filters_perm {es : List Nat} {first last : Nat → Bool}
    (h : ∀ e, last e = true → first e = true) :
    (es.filter (fun e => !first e) ++ es.filter (fun e => first e && !last e)
      ++ es.filter last).Perm es := by
  have hfirst : es.filter (fun e => first e && !last e)
      = (es.filter fun e => !last e).filter first := by
    rw [List.filter_filter]
  have hnone : es.filter (fun e => !first e)
      = (es.filter fun e => !last e).filter fun e => !first e := by
    rw [List.filter_filter]
    refine List.filter_congr fun e _ => ?_
    cases hf : first e with
    | true => rfl
    | false =>
      have hl : last e = false := Bool.eq_false_iff.2 fun hl => by simp [h e hl] at hf
      rw [hl]
      rfl
  rw [hfirst, hnone]
  have hgiven := List.filter_append_perm first (es.filter fun e => !last e)
  have hall := List.filter_append_perm last es
  exact ((List.perm_append_comm.trans hgiven).append_right _).trans
    (List.perm_append_comm.trans hall)

namespace SlotRange

variable {r : SlotRange}

/-- As many windows as are counted. -/
lemma length_windowEpochs (hlast : r.finalEpoch + windowReach ≤ Word.max) {n : Nat}
    (h : r.windowCount = .ok n) : r.windowEpochs.toList.length = n := by
  simp only [windowCount, epochCount, Calc.bind_ok, Word.add_ok] at h
  obtain ⟨_, ⟨span, hspan, -, rfl⟩, -, rfl⟩ := h
  unfold Word.sub at hspan
  split at hspan
  · next hle =>
    cases hspan
    have hsat : Word.satAdd r.finalEpoch windowReach = r.finalEpoch + windowReach :=
      Nat.min_eq_left hlast
    have harith (a b n : Nat) (hle : a ≤ b) : b + n + 1 - a = b - a + 1 + n := by omega
    rw [windowEpochs, EpochSpan.toList, List.length_range']
    dsimp only
    rw [hsat]
    exact harith _ _ _ hle
  · cases hspan

end SlotRange

namespace Plan

variable {σ : Type} {p : Plan} {net : Network} {src : Source} {store : Store σ}
  {requests : Requests} {contents : σ} {fin : RunEnd σ} {report : RunReport} {a : Analysis σ}

/-- The last epochs of the windows with a bundle. -/
def bundled (p : Plan) (net : Network) (src : Source) (requests : Requests) : List Epoch :=
  (p.slots net).windowEpochs.toList.filter fun e => (p.bundleAt net src requests e).isSome

/-- How an analysis that has ended accounts for the windows. -/
structure Accounts (p : Plan) (net : Network) (src : Source) (requests : Requests)
    (a : Analysis σ) (report : RunReport) : Prop where
  /-- what was dispatched is the outcome of one window after another -/
  dealt : ∃ queued, p.processAll net (p.slots net) (p.windows net src requests)
    = .ok (a.report, queued)
  /-- given up by the download, given up by the dispatch, or bundled, each only once -/
  windows : (a.download.abandoned ++ a.report.abandoned ++ p.bundled net src requests).Perm
    (p.slots net).windowEpochs.toList
  apart : (a.download.abandoned ++ a.report.abandoned ++ p.bundled net src requests).Nodup
  processedAscending : report.processedEpochs.Pairwise (· < ·)
  processed : ∀ e, e ∈ report.processedEpochs
    ↔ e ∈ p.epochs net ∧ e ∈ p.bundled net src requests
  abandonedAscending : report.abandonedEpochs.Pairwise (· < ·)
  requested : ∀ e ∈ report.abandonedEpochs, e ∈ p.epochs net
  abandoned : ∀ e, e ∈ report.abandonedEpochs
    ↔ ∃ n ∈ a.download.abandoned ++ a.report.abandoned, e ∈ (p.slots net).coveredBy n
  counted : ∃ n, (p.slots net).windowCount = .ok n ∧
    (p.slots net).windowEpochs.toList.length = n ∧ a.progress = ⟨n, n⟩

section Completed

variable {queued : List Dispatch} {log : List Entry}

/-- The windows that are dispatched are named by the epochs in which they end. -/
lemma next_windowAt (hsrc : src.Dated net (p.slots net)) {e : Nat} {w : Window}
    (h : (p.snapshots net src requests).windowAt e = some w) : w.next.epoch = e :=
  epoch_snapshots hsrc (Outcomes.mem_of_windowAt h).1

lemma names_windows (hsrc : src.Dated net (p.slots net)) (test : Window → Bool) :
    ((p.windows net src requests).filter test).map (·.next.epoch)
      = (p.slots net).windowEpochs.toList.filter fun e =>
        ((p.snapshots net src requests).windowAt e).any test :=
  map_filter_filterMap fun _ _ _ hw => next_windowAt hsrc hw

lemma any_bundleOf (e : Epoch) :
    ((p.snapshots net src requests).windowAt e).any (fun w => (p.bundleOf net w).isSome)
      = (p.bundleAt net src requests e).isSome := by
  rw [bundleAt]
  cases (p.snapshots net src requests).windowAt e <;> rfl

lemma any_not_bundleOf (e : Epoch) :
    ((p.snapshots net src requests).windowAt e).any (fun w => (p.bundleOf net w).isNone)
      = (((p.snapshots net src requests).windowAt e).isSome
        && !(p.bundleAt net src requests e).isSome) := by
  rw [bundleAt]
  cases (p.snapshots net src requests).windowAt e with
  | none => rfl
  | some w => cases h : p.bundleOf net w <;> simp [h]

/-- Every window is given up or bundled. -/
lemma Completed.windows_perm (hsrc : src.Dated net (p.slots net))
    (h : Completed p net src store requests contents a queued log) :
    (a.download.abandoned ++ a.report.abandoned ++ p.bundled net src requests).Perm
      (p.slots net).windowEpochs.toList := by
  obtain ⟨-, -, -, habandoned⟩ := processAll_dispatches h.dispatched
  have hfirst (e : Epoch) : ((p.snapshots net src requests).windowAt e).isNone
      = !((p.snapshots net src requests).windowAt e).isSome := by
    cases (p.snapshots net src requests).windowAt e <;> rfl
  rw [h.abandoned, habandoned, names_windows hsrc]
  simp only [hfirst, any_not_bundleOf]
  refine three_filters_perm fun e hb => ?_
  obtain ⟨b, hb⟩ := Option.isSome_iff_exists.1 hb
  obtain ⟨w, hw, -⟩ := Option.bind_eq_some_iff.1 hb
  rw [hw]
  rfl

lemma Completed.processed (hsrc : src.Dated net (p.slots net))
    (h : Completed p net src store requests contents a queued log) :
    a.report.processed = (p.bundled net src requests).filter
      (p.slots net).analysedEpochs.contains := by
  rw [processAll_report h.dispatched, names_windows hsrc]
  simp only [any_bundleOf]
  rfl

/-- The counter moves once for each window, whoever is done with it. -/
lemma Completed.processed_progress
    (h : Completed p net src store requests contents a queued log) :
    a.progress.processed = (p.slots net).windowEpochs.toList.length := by
  rw [h.counted, count_done_processAll h.dispatched, h.abandoned, windows]
  generalize (p.slots net).windowEpochs.toList = es
  induction es with
  | nil => rfl
  | cons e es ih =>
    cases hw : (p.snapshots net src requests).windowAt e <;>
      simp only [hw, List.filter_cons, List.filterMap_cons, Option.isNone_none,
        Option.isNone_some, if_true, Bool.false_eq_true, if_false, List.length_cons] <;> omega

end Completed

lemma windowCount_of_range {r : SlotRange} (h : p.range net = .ok r) :
    ∃ n, (p.slots net).windowCount = .ok n := by
  have hslots := range_ok h
  simp only [range, Calc.bind_ok, Calc.fault_ok, Calc.pure_ok] at h
  obtain ⟨_, -, r', -, n, hn, _, -, rfl⟩ := h
  exact ⟨n, hslots ▸ hn⟩

/-- **Every window is accounted for exactly once.** Let the epochs of the range and the two after
it be words and let states carry the epoch and the slot that they are requested under. Under every
schedule and over every store, a run that ends well has an analysis in which each window of the
range is either given up by the download or given up by the dispatch or bundled. The processed
epochs are the requested ones in which a bundled window ends, in ascending order, the abandoned
epochs are the requested ones that the other windows cover, in ascending order, and the counter
has reached the number of windows. -/
theorem Ends.accounts (hlast : net.epochOf p.finalSlot + windowReach ≤ Word.max)
    (hsrc : src.Dated net (p.slots net)) (h : p.Ends net src store requests contents fin)
    (hok : fin.result = .ok report) :
    ∃ a, Analysis.Steps (p.commission net src store)
        (.start (p.commission net src store) requests contents) a ∧
      Analysis.Finished (p.commission net src store) a ∧
        fin = a.conclude (p.commission net src store) ∧ p.Accounts net src requests a report := by
  cases h with
  | refused he => cases hok
  | @concluded r a hr hs hfin =>
    obtain ⟨hcrash, hended, hreport, -⟩ := conclude_ok hok
    obtain ⟨queued, log, hdone⟩ := completed_of_finished hsrc.placed (unshared_snapshots hsrc) hs
      hfin hcrash hended
    obtain ⟨n, hn⟩ := windowCount_of_range hr
    have hwindows := hdone.windows_perm hsrc
    have hlength := SlotRange.length_windowEpochs hlast hn
    have hprocessed : report.processedEpochs
        = (p.bundled net src requests).filter (p.slots net).analysedEpochs.contains := by
      rw [hreport]
      show a.report.processed = _
      exact hdone.processed hsrc
    have habandoned (e : Epoch) : e ∈ report.abandonedEpochs ↔
        ∃ n ∈ a.download.abandoned ++ a.report.abandoned, e ∈ (p.slots net).coveredBy n := by
      rw [hreport]
      exact mem_abandonedEpochs
    refine ⟨a, hs, hfin, rfl, ?_⟩
    exact
      { dealt := ⟨queued, hdone.dispatched⟩
        windows := hwindows
        apart := hwindows.nodup_iff.2 (EpochSpan.nodup_toList _)
        processedAscending := by
          rw [hprocessed]
          exact ((EpochSpan.pairwise_toList _).filter _).filter _
        processed := fun e => by
          rw [hprocessed, List.mem_filter, EpochSpan.contains_iff, and_comm]
          rfl
        abandonedAscending := by
          rw [hreport]
          exact Ledger.ascending _
        requested := fun e he => by
          obtain ⟨n, -, hcovered⟩ := (habandoned e).1 he
          exact (SlotRange.mem_coveredBy.1 hcovered).1
        abandoned := habandoned
        counted := by
          have hcount : (p.commission net src store).order.range.windowCount = .ok n := hn
          have htarget : a.progress.target = n := by
            rw [Analysis.target_steps hs, hcount]
            rfl
          have hreached : a.progress.processed = n := hdone.processed_progress.trans hlength
          exact ⟨n, hn, hlength, Progress.ext hreached htarget⟩ }

/-- No state of slot 3, and one of slot 1 with more effective balance than a word holds. -/
def patchySource : Source where
  block slot _ := .error (.notFound .block slot)
  report slot _ := .error (.notFound .report slot)
  duties e _ := .ok ⟨[], [⟨0, e⟩]⟩
  state slot _ :=
    if slot = 3 then .error (.notFound .state slot)
    else
      .ok { Snapshot.placeholder slot slot with
        stateRoot := .ofNat 32 1
        validators := (if slot = 1 then [Word.max, Word.max] else [32, 32]).map fun balance =>
          ⟨.zero, balance, false, 0, 0, farFuture, farFuture⟩
        balances := [32, 32]
        blockRoots := [.zero, .zero] }

lemma dated_patchySource : patchySource.Dated briefNetwork (briefPlan.slots briefNetwork) where
  placed slot i s hs := by
    simp only [patchySource] at hs
    split at hs <;> cases hs
    rfl
  epoch e he i s hs := by
    have hslots : ∀ e ∈ (briefPlan.slots briefNetwork).downloadEpochs.toList,
        briefNetwork.terminalSlot e = e := by decide
    rw [hslots e he] at hs
    simp only [patchySource] at hs
    split at hs <;> cases hs
    rfl

/-- Of the windows of the first two epochs the first one has a bundle. The two with the state of
slot 1 as their middle or last one have none, and the last window is never there. -/
theorem patchy_accounts :
    briefNetwork.epochOf briefPlan.finalSlot + windowReach ≤ Word.max ∧
      patchySource.Dated briefNetwork (briefPlan.slots briefNetwork) ∧ ∃ fin report,
        briefPlan.Ends briefNetwork patchySource MemoryStore.store .none .empty fin ∧
          fin.result = .ok report ∧ ∃ a : Analysis MemoryStore,
            briefPlan.Accounts briefNetwork patchySource .none a report ∧
              a.download.abandoned = [3] ∧ a.report.abandoned = [1, 2] ∧
                briefPlan.bundled briefNetwork patchySource .none = [0] ∧
                  a.progress = ⟨4, 4⟩ := by
  have hends := ends_run briefPlan briefNetwork patchySource MemoryStore.store .none .empty
  have hok : (briefPlan.run briefNetwork patchySource MemoryStore.store false .none
      .empty).result.toOption.isSome = true := by cbv
  have hlast : briefNetwork.epochOf briefPlan.finalSlot + windowReach ≤ Word.max := by decide
  obtain ⟨report, hreport⟩ := Calc.ok_of_isSome hok
  obtain ⟨a, -, -, -, ha⟩ := Ends.accounts hlast dated_patchySource hends hreport
  have hbundled : briefPlan.bundled briefNetwork patchySource .none = [0] := by cbv
  have hgiven : a.report.abandoned = [1, 2] := by
    have hcome : (briefPlan.processAll briefNetwork (briefPlan.slots briefNetwork)
        (briefPlan.windows briefNetwork patchySource .none)).toOption.map (·.1.abandoned)
          = some [1, 2] := by cbv
    obtain ⟨queued, hdealt⟩ := ha.dealt
    rw [hdealt] at hcome
    exact Option.some.inj hcome
  have hlost : a.download.abandoned = [3] := by
    have hwindows := ha.windows
    have hall : ((briefPlan.slots briefNetwork).windowEpochs.toList).Perm
        ([3] ++ ([1, 2] ++ [0])) := by
      decide
    rw [hgiven, hbundled, List.append_assoc] at hwindows
    exact List.perm_singleton.1 ((List.perm_append_right_iff _).1 (hwindows.trans hall))
  have hcount : a.progress = ⟨4, 4⟩ := by
    obtain ⟨n, -, hn, hprogress⟩ := ha.counted
    have hfour : (briefPlan.slots briefNetwork).windowEpochs.toList.length = 4 := by decide
    rw [hfour] at hn
    rw [← hn] at hprogress
    exact hprogress
  exact ⟨hlast, dated_patchySource, _, report, hends, hreport, a, ha, hlost, hgiven, hbundled,
    hcount⟩

end Plan

end EpochRewards
