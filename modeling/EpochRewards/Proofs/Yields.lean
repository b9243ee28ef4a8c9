import EpochRewards.Proofs.Batches
import EpochRewards.Proofs.Buffering
import EpochRewards.Proofs.Crews
import EpochRewards.Proofs.Figures
import EpochRewards.Proofs.Settings
import Mathlib.Data.List.Induction

/-!
What windows yield.

Of a window whose bundle can be built, the rows about its first epoch are dispatched as messages
and the records of its analysed validators as the rows of tasks. Without pools no record is
named, and without replacements nothing is deleted.
-/

namespace EpochRewards

namespace Dispatch

def message? : Dispatch → Option Message
  | .message m => some m
  | .task _ | .done => none

def task? : Dispatch → Option ValidatorTask
  | .task t => some t
  | .message _ | .done => none

end Dispatch

/-- The messages among what is dispatched. -/
def messagesOf (ds : List Dispatch) : List Message := ds.filterMap Dispatch.message?

/-- The rows of the tasks among what is dispatched. -/
def taskRows (ds : List Dispatch) : List Row := (ds.filterMap Dispatch.task?).flatMap (·.rows)

@[simp] lemma messagesOf_append (ds es : List Dispatch) :
    messagesOf (ds ++ es) = messagesOf ds ++ messagesOf es := List.filterMap_append

@[simp] lemma taskRows_append (ds es : List Dispatch) :
    taskRows (ds ++ es) = taskRows ds ++ taskRows es := by
  rw [taskRows, List.filterMap_append, List.flatMap_append]
  rfl

@[simp] lemma messagesOf_task (t : ValidatorTask) : messagesOf [.task t] = [] := rfl

@[simp] lemma messagesOf_append_done (ds : List Dispatch) :
    messagesOf (ds ++ [.done]) = messagesOf ds := by
  rw [messagesOf_append]
  exact List.append_nil _

@[simp] lemma taskRows_append_done (ds : List Dispatch) :
    taskRows (ds ++ [.done]) = taskRows ds := by
  rw [taskRows_append]
  exact List.append_nil _

@[simp] lemma messagesOf_map_message (ms : List Message) : messagesOf (ms.map .message) = ms := by
  rw [messagesOf, List.filterMap_map]
  exact List.filterMap_some

@[simp] lemma messagesOf_map_task (ts : List ValidatorTask) : messagesOf (ts.map .task) = [] := by
  rw [messagesOf, List.filterMap_map]
  exact List.filterMap_eq_nil_iff.2 fun _ _ => rfl

lemma tasks_map_message (ms : List Message) :
    (ms.map Dispatch.message).filterMap Dispatch.task? = [] := by
  rw [List.filterMap_map]
  exact List.filterMap_eq_nil_iff.2 fun _ _ => rfl

lemma tasks_map_task (ts : List ValidatorTask) :
    (ts.map Dispatch.task).filterMap Dispatch.task? = ts := by
  rw [List.filterMap_map]
  exact List.filterMap_some

@[simp] lemma taskRows_map_message (ms : List Message) : taskRows (ms.map .message) = [] := by
  rw [taskRows, tasks_map_message, List.flatMap_nil]

@[simp] lemma taskRows_map_task (ts : List ValidatorTask) :
    taskRows (ts.map .task) = ts.flatMap (·.rows) := by
  rw [taskRows, tasks_map_task]

/-- The attempts of the tasks among what is dispatched. -/
def attemptsOf (ds : List Dispatch) : List Attempt :=
  (ds.filterMap Dispatch.task?).flatMap (·.attempts)

lemma attemptsOf_append (ds es : List Dispatch) :
    attemptsOf (ds ++ es) = attemptsOf ds ++ attemptsOf es := by
  rw [attemptsOf, List.filterMap_append, List.flatMap_append]
  rfl

lemma attemptsOf_append_done (ds : List Dispatch) : attemptsOf (ds ++ [.done]) = attemptsOf ds := by
  rw [attemptsOf_append]
  exact List.append_nil _

lemma attemptsOf_map_message (ms : List Message) : attemptsOf (ms.map .message) = [] := by
  rw [attemptsOf, tasks_map_message, List.flatMap_nil]

lemma attemptsOf_map_task (ts : List ValidatorTask) :
    attemptsOf (ts.map .task) = ts.flatMap (·.attempts) := by
  rw [attemptsOf, tasks_map_task]

lemma rows_attemptsOf (ds : List Dispatch) :
    (attemptsOf ds).filterMap Attempt.row? = taskRows ds := List.filterMap_flatMap

/-- The rows of a table among messages. -/
def rowsIn (t : Table) (ms : List Message) : List Row :=
  ms.filterMap fun
    | .row r => if r.table = t then some r else none
    | .delete .. => none

@[simp] lemma rowsIn_append (t : Table) (ms ns : List Message) :
    rowsIn t (ms ++ ns) = rowsIn t ms ++ rowsIn t ns := List.filterMap_append

lemma rowsIn_cons (t : Table) (row : Row) (ms : List Message) :
    rowsIn t (.row row :: ms) = (if row.table = t then [row] else []) ++ rowsIn t ms := by
  rw [rowsIn, List.filterMap_cons]
  by_cases h : row.table = t
  · simp only [if_pos h, List.singleton_append]
    rfl
  · simp only [if_neg h, List.nil_append]
    rfl

/-- Rows of one table are all in it or none is. -/
lemma rowsIn_map {α : Type} {f : α → Row} {u : Table} (hf : ∀ x, (f x).table = u) (t : Table)
    (xs : List α) : rowsIn t ((xs.map f).map .row) = if u = t then xs.map f else [] := by
  induction xs with
  | nil => exact (ite_self _).symm
  | cons x xs ih =>
    rw [List.map_cons, List.map_cons, rowsIn_cons, ih, hf]
    split <;> rfl

/-- Messages that delete nothing add their rows. -/
lemma foldl_effect {ms : List Message} (h : ∀ m ∈ ms, m.isDelete = false) (t : Table)
    (rows : List Row) : ms.foldl (Message.effect t) rows = rows ++ rowsIn t ms := by
  induction ms generalizing rows with
  | nil => exact (List.append_nil _).symm
  | cons m ms ih =>
    have hm := h m List.mem_cons_self
    rw [List.foldl_cons, ih fun x hx => h x (List.mem_cons_of_mem _ hx)]
    cases m with
    | row r => by_cases hr : r.table = t <;> simp [Message.effect, rowsIn, hr]
    | delete u slot => cases hm

/-! ### The first epoch -/

/-- The rows of a table about the first epoch of a bundle's window. -/
def Bundle.epochRows (b : Bundle) : Table → Except Fault (List Row)
  | .validatorRewards => return []
  | .epochSummary => do return [.summary (← b.epochSummary)]
  | .proposerDuties => return b.proposerDuties.map .duty
  | .blocks => do return (← b.blockSummaries).map .block
  | .attestations => return b.attestationRecords.map .attestation
  | .withdrawals => return b.withdrawalRecords.map .withdrawal

namespace Plan

variable {p : Plan} {net : Network} {r : SlotRange} {b : Bundle}

/-- Without replacements the messages of a bundle are its rows, table by table. -/
lemma epochMessages_ok (hr : p.replaceRows = false) {ms : List Message}
    (h : p.epochMessages b = .ok ms) :
    (∀ m ∈ ms, m.isDelete = false) ∧ ∀ t, b.epochRows t = .ok (rowsIn t ms) := by
  simp only [epochMessages, Calc.bind_ok, Calc.pure_ok, hr] at h
  obtain ⟨summary, hs, blocks, hb, rfl⟩ := h
  rw [if_neg Bool.false_ne_true, List.nil_append]
  refine ⟨fun m hm => ?_, fun t => ?_⟩
  · obtain ⟨row, -, rfl⟩ := List.mem_map.1 hm
    rfl
  · have hsummary : rowsIn t [.row (.summary summary)]
        = if Table.epochSummary = t then [Row.summary summary] else [] :=
      rowsIn_map (fun _ => rfl) t [summary]
    have hduties := rowsIn_map (f := Row.duty) (fun _ => rfl) t b.proposerDuties
    have hblocks := rowsIn_map (f := Row.block) (fun _ => rfl) t blocks
    have hattestations := rowsIn_map (f := Row.attestation) (fun _ => rfl) t b.attestationRecords
    have hwithdrawals := rowsIn_map (f := Row.withdrawal) (fun _ => rfl) t b.withdrawalRecords
    rw [List.map_append, List.map_append, List.map_append, List.map_cons, ← List.singleton_append,
      rowsIn_append, rowsIn_append, rowsIn_append, rowsIn_append, hsummary, hduties, hblocks,
      hattestations, hwithdrawals]
    cases t <;> simp [Bundle.epochRows, hs, hb, pure, Except.pure, bind, Except.bind]

end Plan

/-! ### Records -/

namespace Bundle

variable {b : Bundle} {v : ValidatorIndex} {rec : ValidatorRecord}

/-- What a record says of where it belongs. -/
lemma resolve_ok (h : b.resolve v = .ok rec) :
    rec.validator = v ∧ rec.epoch = b.window.next.epoch ∧ rec.slot = b.window.next.slot ∧
      rec.pool = none := (resolve_figures h).subject

end Bundle

/-- Without a pool the records of a task are those of its bundle. -/
lemma ValidatorTask.resolve_eq (vs : List ValidatorIndex) (b : Bundle) (v : ValidatorIndex) :
    (ValidatorTask.mk vs b none).resolve v = b.resolve v := by
  unfold resolve
  cases h : b.resolve v with
  | error e => rfl
  | ok rec =>
    show Except.ok { rec with pool := none } = Except.ok rec
    rw [← (Bundle.resolve_ok h).2.2.2]

/-- The rows of a task are on its validators at the end of its window. -/
lemma ValidatorTask.mem_rows {t : ValidatorTask} {row : Row} (h : row ∈ t.rows) :
    ∃ rec, row = .validator rec ∧ rec.slot = t.bundle.window.next.slot := by
  obtain ⟨x, hx, hrow⟩ := List.mem_filterMap.1 h
  obtain ⟨rec, hrec, rfl⟩ := Option.map_eq_some_iff.1 hrow
  obtain ⟨v, -, rfl⟩ := List.mem_map.1 hx
  obtain ⟨rec', hresolved, hrec'⟩ := Calc.bind_ok.1 (Calc.toOption_eq_some.1 hrec)
  cases hrec'
  exact ⟨_, rfl, (Bundle.resolve_ok hresolved).2.2.1⟩

namespace Plan

variable {p : Plan} {net : Network} {r : SlotRange} {b : Bundle}

lemma bundle_validatorTasks {t : ValidatorTask} (h : t ∈ p.validatorTasks b) : t.bundle = b := by
  unfold validatorTasks at h
  dsimp only at h
  split at h
  · obtain ⟨vs, -, rfl⟩ := List.mem_map.1 h
    rfl
  · obtain ⟨pool, -, rfl⟩ := List.mem_map.1 h
    rfl

/-- The rows of the records that can be resolved of the analysed validators. -/
def recordRows (p : Plan) (b : Bundle) : List Row :=
  (p.analysed b).filterMap fun v => (b.resolve v).toOption.map .validator

/-- Without pools every analysed validator is attempted once. -/
lemma attempts_validatorTasks (hp : p.pools = []) :
    (p.validatorTasks b).flatMap (·.attempts) = (p.analysed b).map b.resolve := by
  have hattempts (vs : List ValidatorIndex) :
      (ValidatorTask.mk vs b none).attempts = vs.map b.resolve :=
    List.map_congr_left fun v _ => ValidatorTask.resolve_eq vs b v
  rw [validatorTasks, hp, List.isEmpty_nil, if_pos rfl, List.flatMap_map]
  simp only [hattempts]
  rw [List.flatMap, ← List.map_flatten, flatten_splitEvenly]

lemma rows_validatorTasks (hp : p.pools = []) :
    (p.validatorTasks b).flatMap (·.rows) = p.recordRows b := by
  have hrows : (p.validatorTasks b).flatMap (·.rows)
      = ((p.validatorTasks b).flatMap (·.attempts)).filterMap Attempt.row? :=
    List.filterMap_flatMap.symm
  rw [hrows, attempts_validatorTasks hp, List.filterMap_map]
  rfl

/-! ### Windows -/

/-- The bundle of a window, if its passes succeed. -/
def bundleOf (p : Plan) (net : Network) (w : Window) : Option Bundle :=
  (Bundle.build net p.preference w).toOption

lemma window_bundleOf {w : Window} (h : p.bundleOf net w = some b) : b.window = w :=
  Bundle.window_build (Calc.toOption_eq_some.1 h)

lemma dispatches_eq_ok {ds : List Dispatch} : p.dispatches r b = .ok ds ↔
    ∃ ms, (if r.writesEpochRows b.window then p.epochMessages b else .ok []) = .ok ms ∧
      ms.map .message ++ (if r.writesValidatorRows b.window then p.validatorDispatches b else [])
        = ds := by
  unfold dispatches
  cases r.writesEpochRows b.window with
  | true => simp only [if_true, Calc.bind_ok, Calc.pure_ok]
  | false =>
    simp only [Bool.false_eq_true, if_false, Calc.bind_ok, Calc.pure_ok, Except.ok.injEq]

/-- Without pools and replacements a bundle yields rows and records, within the range. -/
lemma dispatches_ok (hp : p.pools = []) (hr : p.replaceRows = false) {ds : List Dispatch}
    (h : p.dispatches r b = .ok ds) :
    (∀ m ∈ messagesOf ds, m.isDelete = false) ∧
      (∀ t, (if r.writesEpochRows b.window then b.epochRows t else .ok [])
        = .ok (rowsIn t (messagesOf ds))) ∧
      taskRows ds = if r.writesValidatorRows b.window then p.recordRows b else [] := by
  obtain ⟨ms, hm, rfl⟩ := dispatches_eq_ok.1 h
  have hvalidators : p.validatorDispatches b = (p.validatorTasks b).map .task := by
    rw [validatorDispatches, hr]
    rfl
  have hsent : messagesOf (if r.writesValidatorRows b.window then p.validatorDispatches b else [])
      = [] := by
    rw [hvalidators]
    split
    · exact messagesOf_map_task _
    · rfl
  rw [messagesOf_append, messagesOf_map_message, hsent, List.append_nil, taskRows_append,
    taskRows_map_message, List.nil_append]
  refine ⟨?_, fun t => ?_, ?_⟩
  · split at hm
    · exact (epochMessages_ok hr hm).1
    · cases hm
      exact fun m hm => absurd hm List.not_mem_nil
  · split at hm
    · next hw =>
      rw [if_pos hw]
      exact (epochMessages_ok hr hm).2 t
    · next hw =>
      cases hm
      exact if_neg hw
  · split
    · rw [hvalidators, taskRows_map_task, rows_validatorTasks hp]
    · rfl

lemma process_ok {report report' : DispatchReport} {w : Window} {ds : List Dispatch}
    (h : p.process net r report w = .ok (report', ds)) :
    p.bundleOf net w = none ∧ ds = [.done] ∨
      ∃ b more, p.bundleOf net w = some b ∧ b.window = w ∧ p.dispatches r b = .ok more ∧
        ds = more ++ [.done] := by
  simp only [process] at h
  unfold bundleOf
  split at h
  · next e he =>
    cases h
    rw [he]
    exact .inl ⟨rfl, rfl⟩
  · next b hb =>
    obtain ⟨more, hm, h⟩ := Calc.bind_ok.1 h
    cases h
    rw [hb]
    exact .inr ⟨b, more, rfl, Bundle.window_build hb, hm, rfl⟩

lemma processAll_concat {ws : List Window} {w : Window} {report : DispatchReport}
    {ds : List Dispatch} : p.processAll net r (ws ++ [w]) = .ok (report, ds) ↔
      ∃ before done more, p.processAll net r ws = .ok (before, done) ∧
        p.process net r before w = .ok (report, more) ∧ done ++ more = ds := by
  unfold processAll
  rw [List.foldlM_append]
  simp only [List.foldlM_cons, List.foldlM_nil, Calc.bind_ok, Calc.pure_ok]
  constructor
  · rintro ⟨⟨before, done⟩, hb, _, ⟨⟨_, more⟩, hw, rfl⟩, h⟩
    cases h
    exact ⟨before, done, more, hb, hw, rfl⟩
  · rintro ⟨before, done, more, hb, hw, rfl⟩
    exact ⟨_, hb, _, ⟨_, hw, rfl⟩, rfl⟩

/-- What is dispatched of a window, whatever was before it. -/
def dispatchesOf (p : Plan) (net : Network) (r : SlotRange) (w : Window) :
    Except Fault (List Dispatch) :=
  match p.bundleOf net w with
  | none => .ok [.done]
  | some b => do return (← p.dispatches r b) ++ [.done]

lemma dispatchesOf_none {w : Window} (h : p.bundleOf net w = none) :
    p.dispatchesOf net r w = .ok [.done] := by
  rw [dispatchesOf, h]

lemma dispatchesOf_some {w : Window} {ds : List Dispatch} (h : p.bundleOf net w = some b) :
    p.dispatchesOf net r w = .ok ds ↔
      ∃ more, p.dispatches r b = .ok more ∧ more ++ [.done] = ds := by
  rw [dispatchesOf, h]
  exact Calc.bind_ok.trans (exists_congr fun _ => and_congr_right fun _ => Calc.pure_ok)

lemma dispatchesOf_fault {w : Window} {f : Fault} (h : p.bundleOf net w = some b) :
    p.dispatchesOf net r w = .error f ↔ p.dispatches r b = .error f := by
  rw [dispatchesOf, h]
  dsimp only
  cases p.dispatches r b with
  | error f' => rfl
  | ok ds => exact ⟨nofun, nofun⟩

/-- A window is abandoned if it has no bundle. -/
lemma process_dispatches {report report' : DispatchReport} {w : Window} {ds : List Dispatch}
    (h : p.process net r report w = .ok (report', ds)) :
    p.dispatchesOf net r w = .ok ds ∧
      report'.abandoned
        = report.abandoned ++ if (p.bundleOf net w).isNone then [w.next.epoch] else [] := by
  simp only [process] at h
  unfold dispatchesOf bundleOf
  split at h
  · next e he =>
    cases h
    rw [he]
    exact ⟨rfl, rfl⟩
  · next b hb =>
    obtain ⟨more, hm, h⟩ := Calc.bind_ok.1 h
    cases h
    rw [hb]
    exact ⟨Calc.bind_ok.2 ⟨more, hm, rfl⟩, (List.append_nil _).symm⟩

lemma process_fault {report : DispatchReport} {w : Window} {f : Fault}
    (h : p.process net r report w = .error f) : p.dispatchesOf net r w = .error f := by
  simp only [process] at h
  unfold dispatchesOf bundleOf
  split at h
  · cases h
  · next b hb =>
    rw [hb]
    dsimp only [Except.toOption]
    cases hd : p.dispatches r b with
    | error f' =>
      rw [hd] at h
      cases h
      rfl
    | ok ds =>
      rw [hd] at h
      cases h

/-- Windows are dispatched one by one. -/
lemma processAll_dispatches {ws : List Window} {report : DispatchReport} {ds : List Dispatch}
    (h : p.processAll net r ws = .ok (report, ds)) :
    ∃ dss, List.Forall₂ (fun w ds => p.dispatchesOf net r w = .ok ds) ws dss ∧ dss.flatten = ds ∧
      report.abandoned = (ws.filter fun w => (p.bundleOf net w).isNone).map (·.next.epoch) := by
  induction ws using List.reverseRecOn generalizing report ds with
  | nil =>
    cases h
    exact ⟨[], .nil, rfl, rfl⟩
  | append_singleton ws w ih =>
    obtain ⟨before, done, more, hb, hw, rfl⟩ := processAll_concat.1 h
    obtain ⟨dss, hdss, rfl, habandoned⟩ := ih hb
    obtain ⟨hmore, habandoned'⟩ := process_dispatches hw
    refine ⟨dss ++ [more], List.rel_append hdss (.cons hmore .nil), ?_, ?_⟩
    · rw [List.flatten_append, List.flatten_singleton]
    · rw [habandoned', habandoned, List.filter_append, List.map_append, List.filter_singleton]
      cases (p.bundleOf net w).isNone <;> rfl

end Plan

/-- The rows of a table of several bundles one after another. -/
def Bundle.allEpochRows (bs : List Bundle) (t : Table) : Except Fault (List Row) := do
  return (← bs.mapM (·.epochRows t)).flatten

lemma Bundle.allEpochRows_append {bs cs : List Bundle} {t : Table} {rows more : List Row}
    (hb : allEpochRows bs t = .ok rows) (hc : allEpochRows cs t = .ok more) :
    allEpochRows (bs ++ cs) t = .ok (rows ++ more) := by
  unfold allEpochRows at *
  simp only [Calc.bind_ok, Calc.pure_ok] at hb hc
  obtain ⟨xs, hx, rfl⟩ := hb
  obtain ⟨ys, hy, rfl⟩ := hc
  rw [List.mapM_append, hx, hy, ← List.flatten_append]
  rfl

lemma Bundle.allEpochRows_singleton (b : Bundle) (t : Table) :
    allEpochRows [b] t = b.epochRows t := by
  unfold allEpochRows
  rw [List.mapM_cons, List.mapM_nil]
  cases b.epochRows t with
  | error f => rfl
  | ok rows =>
    show Except.ok [rows].flatten = Except.ok rows
    rw [List.flatten_singleton]

lemma Bundle.allEpochRows_validatorRewards (bs : List Bundle) :
    allEpochRows bs .validatorRewards = .ok [] := by
  induction bs with
  | nil => rfl
  | cons b bs ih =>
    have hb : allEpochRows [b] .validatorRewards = .ok [] := allEpochRows_singleton b _
    exact allEpochRows_append hb ih

namespace Plan

variable {p : Plan} {net : Network} {r : SlotRange}

/-- What windows yield without pools and replacements: the rows about the first epochs, of the
windows that write them, and the records of the validators, likewise. -/
structure Yields (p : Plan) (net : Network) (r : SlotRange) (ws : List Window)
    (ds : List Dispatch) : Prop where
  adding : ∀ m ∈ messagesOf ds, m.isDelete = false
  rows : ∀ t, Bundle.allEpochRows ((ws.filter r.writesEpochRows).filterMap (p.bundleOf net)) t
    = .ok (rowsIn t (messagesOf ds))
  records : taskRows ds
    = ((ws.filter r.writesValidatorRows).filterMap (p.bundleOf net)).flatMap p.recordRows

lemma yields_nil : p.Yields net r [] [] :=
  ⟨fun _ hm => absurd hm List.not_mem_nil, fun _ => rfl, rfl⟩

lemma Yields.append {ws vs : List Window} {ds es : List Dispatch} (h : p.Yields net r ws ds)
    (h' : p.Yields net r vs es) : p.Yields net r (ws ++ vs) (ds ++ es) where
  adding := by
    rw [messagesOf_append]
    intro m hm
    exact (List.mem_append.1 hm).elim (h.adding m) (h'.adding m)
  rows t := by
    rw [List.filter_append, List.filterMap_append, messagesOf_append, rowsIn_append]
    exact Bundle.allEpochRows_append (h.rows t) (h'.rows t)
  records := by
    rw [List.filter_append, List.filterMap_append, List.flatMap_append, taskRows_append, h.records,
      h'.records]

lemma process_yields (hp : p.pools = []) (hr : p.replaceRows = false)
    {report report' : DispatchReport} {w : Window} {ds : List Dispatch}
    (h : p.process net r report w = .ok (report', ds)) : p.Yields net r [w] ds := by
  have hfilter (f : Window → Bool) : ([w].filter f).filterMap (p.bundleOf net)
      = if f w then (p.bundleOf net w).toList else [] := by
    rw [List.filter_singleton]
    cases f w with
    | true =>
      cases hw : p.bundleOf net w with
      | none => rw [cond_true, List.filterMap_cons_none hw]; rfl
      | some b => rw [cond_true, List.filterMap_cons_some hw]; rfl
    | false => rfl
  rcases process_ok h with ⟨hn, rfl⟩ | ⟨b, more, hb, rfl, hd, rfl⟩
  · rw [hn, Option.toList_none] at hfilter
    simp only [ite_self] at hfilter
    refine ⟨fun _ hm => absurd hm List.not_mem_nil, fun t => ?_, ?_⟩
    · rw [hfilter]
      rfl
    · rw [hfilter]
      rfl
  · obtain ⟨hadding, hrows, hrecords⟩ := dispatches_ok hp hr hd
    rw [hb, Option.toList_some] at hfilter
    refine ⟨messagesOf_append_done more ▸ hadding, fun t => ?_, ?_⟩
    · rw [hfilter, messagesOf_append_done, ← hrows t]
      split
      · exact Bundle.allEpochRows_singleton b t
      · rfl
    · rw [hfilter, taskRows_append_done, hrecords]
      split
      · rw [List.flatMap_singleton]
      · rw [List.flatMap_nil]

theorem processAll_yields (hp : p.pools = []) (hr : p.replaceRows = false) {ws : List Window}
    {report : DispatchReport} {ds : List Dispatch} (h : p.processAll net r ws = .ok (report, ds)) :
    p.Yields net r ws ds := by
  induction ws using List.reverseRecOn generalizing report ds with
  | nil =>
    cases h
    exact yields_nil
  | append_singleton ws w ih =>
    obtain ⟨before, done, more, hb, hw, rfl⟩ := processAll_concat.1 h
    exact (ih hb).append (process_yields hp hr hw)

end Plan

end EpochRewards
