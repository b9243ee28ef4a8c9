import EpochRewards.Proofs.Accounts
import EpochRewards.Proofs.Faults
import EpochRewards.Proofs.Replacements

/-!
How many rows a run leaves about a validator.

Without pools the validators are cut into batches and each is in one of them. The tasks of pools
are taken from the plan, which may list a validator twice under one name: then every epoch has two
rows of it. So rows are distinct as far as the lists of the plan are.
-/

namespace EpochRewards

/-! ### What rows are about -/

/-- A validator, an epoch and the name of a pool. -/
abbrev Subject := ValidatorIndex × Epoch × Option String

def ValidatorRecord.subject (rec : ValidatorRecord) : Subject :=
  (rec.validator, rec.epoch, rec.pool)

/-- What the row of a validator is about. -/
def Row.subject? : Row → Option Subject
  | .validator rec => some rec.subject
  | _ => none

/-- What the rows of validators among these are about. -/
def subjects (rows : List Row) : List Subject := rows.filterMap Row.subject?

@[simp] lemma subjects_append (rows more : List Row) :
    subjects (rows ++ more) = subjects rows ++ subjects more := List.filterMap_append

lemma count_filter_eq_ite {α : Type} [BEq α] [LawfulBEq α] (test : α → Bool) (x : α)
    (xs : List α) : (xs.filter test).count x = if test x then xs.count x else 0 := by
  split
  · next h => exact List.count_filter h
  · next h => exact List.count_eq_zero.2 fun hmem => h (List.mem_filter.1 hmem).2

/-- Whether a validator has a record. -/
def Bundle.resolves (b : Bundle) (v : ValidatorIndex) : Bool := (b.resolve v).toOption.isSome

/-- The records of a task are about those of its validators that have one. -/
lemma ValidatorTask.subjects_rows (t : ValidatorTask) :
    subjects t.rows = (t.validators.filter t.bundle.resolves).map
      fun v => (v, t.bundle.window.next.epoch, t.pool) := by
  have hone (v : ValidatorIndex) : subjects ((Attempt.row? (t.resolve v)).toList)
      = if t.bundle.resolves v then [(v, t.bundle.window.next.epoch, t.pool)] else [] := by
    rw [resolve, Bundle.resolves]
    cases hv : t.bundle.resolve v with
    | error e => rfl
    | ok rec =>
      obtain ⟨hvalidator, hepoch, -, -⟩ := Bundle.resolve_ok hv
      rw [← hvalidator, ← hepoch]
      rfl
  have hall (vs : List ValidatorIndex) : subjects ((vs.map t.resolve).filterMap Attempt.row?)
      = (vs.filter t.bundle.resolves).map fun v => (v, t.bundle.window.next.epoch, t.pool) := by
    induction vs with
    | nil => rfl
    | cons v vs ih =>
      have hsplit : ((v :: vs).map t.resolve).filterMap Attempt.row?
          = (Attempt.row? (t.resolve v)).toList ++ (vs.map t.resolve).filterMap Attempt.row? := by
        rw [List.map_cons, List.filterMap_cons]
        cases Attempt.row? (t.resolve v) <;> rfl
      rw [hsplit, subjects_append, hone, ih, List.filter_cons]
      split <;> rfl
  exact hall t.validators

/-! ### Touched slots -/

/-- Of the slots of a table, what is dispatched has rows of these and clears these at most. A slot
is not cleared once there are rows of it. -/
structure Touches (t : Table) (ds : List Dispatch) (slots : List Slot) : Prop where
  spares : ds.Pairwise (Dispatch.SparesIn t)
  clears : ∀ d ∈ ds, ∀ slot ∈ d.clears t, slot ∈ slots
  rows : ∀ d ∈ ds, ∀ row ∈ d.rows, row.table = t → row.slot ∈ slots

namespace Touches

lemma nil (t : Table) (slots : List Slot) : Touches t [] slots :=
  ⟨.nil, fun _ hd => absurd hd List.not_mem_nil, fun _ hd => absurd hd List.not_mem_nil⟩

/-- What follows must not touch the slots that there are rows of already. -/
lemma append {t : Table} {ds es : List Dispatch} {slots later : List Slot} (h : Touches t ds slots)
    (h' : Touches t es later) (hapart : ∀ slot ∈ slots, slot ∉ later) :
    Touches t (ds ++ es) (slots ++ later) where
  spares := by
    refine List.pairwise_append.2 ⟨h.spares, h'.spares, fun d hd d' hd' row hrow htable hslot => ?_⟩
    exact hapart row.slot (h.rows d hd row hrow htable) (h'.clears d' hd' row.slot hslot)
  clears d hd slot hslot := by
    rcases List.mem_append.1 hd with hd | hd
    · exact List.mem_append_left _ (h.clears d hd slot hslot)
    · exact List.mem_append_right _ (h'.clears d hd slot hslot)
  rows d hd row hrow htable := by
    rcases List.mem_append.1 hd with hd | hd
    · exact List.mem_append_left _ (h.rows d hd row hrow htable)
    · exact List.mem_append_right _ (h'.rows d hd row hrow htable)

/-- The end of a window touches nothing. -/
lemma done {t : Table} {ds : List Dispatch} {slots : List Slot} (h : Touches t ds slots) :
    Touches t (ds ++ [.done]) slots := by
  have hdone : Touches t [.done] [] :=
    { spares := List.pairwise_singleton _ _
      clears := fun d hd slot hslot => by
        rw [List.mem_singleton.1 hd] at hslot
        cases hslot
      rows := fun d hd row hrow => by
        rw [List.mem_singleton.1 hd] at hrow
        cases hrow }
  have happend := h.append hdone fun _ _ => List.not_mem_nil
  rwa [List.append_nil] at happend

end Touches

namespace Plan

variable {p : Plan} {net : Network} {r : SlotRange} {b : Bundle} {w : Window}
  {ds : List Dispatch} {v : ValidatorIndex} {e : Epoch} {pool : Option String}

/-! ### Lists of validators -/

/-- The validators of all pools under the names of these. -/
def pooled (p : Plan) : List (ValidatorIndex × Option String) :=
  p.pools.flatMap fun q => q.validators.map (·, some q.name)

/-- How often a plan lists a validator under the name of a pool: once under no name if there are
no pools. -/
def listings (p : Plan) (v : ValidatorIndex) (pool : Option String) : Nat :=
  if p.pools.isEmpty then if pool = none then 1 else 0 else p.pooled.count (v, pool)

/-- Pools of distinct names that list their validators once list no validator twice. -/
lemma listings_le_one (hnames : (p.pools.map (·.name)).Nodup)
    (hvalidators : ∀ q ∈ p.pools, q.validators.Nodup) (v : ValidatorIndex)
    (pool : Option String) : p.listings v pool ≤ 1 := by
  unfold listings
  split
  · split <;> decide
  · refine List.nodup_iff_count_le_one.1 (List.nodup_flatMap.2 ⟨fun q hq => ?_, ?_⟩) _
    · exact (hvalidators q hq).map fun _ _ h => (Prod.mk.inj h).1
    · refine (List.pairwise_map.1 hnames).imp fun {q q'} hne => ?_
      intro x hx hx'
      obtain ⟨v, -, rfl⟩ := List.mem_map.1 hx
      obtain ⟨v', -, heq⟩ := List.mem_map.1 hx'
      exact hne (Option.some.inj (Prod.mk.inj heq).2).symm

/-- The validators of the tasks of a bundle, under the names of their pools. -/
def listed (p : Plan) (b : Bundle) : List (ValidatorIndex × Option String) :=
  (p.validatorTasks b).flatMap fun t => t.validators.map (·, t.pool)

/-- The batches have every analysed validator once, under no name. -/
lemma listed_batches (h : p.pools.isEmpty = true) (b : Bundle) :
    p.listed b = (p.analysed b).map fun v => (v, (none : Option String)) := by
  rw [listed, validatorTasks, if_pos h, List.flatMap_map]
  show ((splitEvenly p.batchCount.val (p.analysed b)).map
    (List.map fun v => (v, (none : Option String)))).flatten = _
  rw [← List.map_flatten, flatten_splitEvenly]

/-- Of the pools the analysed validators are left. -/
lemma listed_pools (h : p.pools.isEmpty = false) (b : Bundle) :
    p.listed b = p.pooled.filter fun x => (p.analysed b).contains x.1 := by
  rw [listed, validatorTasks, if_neg (Bool.eq_false_iff.1 h), List.flatMap_map, pooled,
    List.filter_flatMap]
  refine List.flatMap_congr fun q _ => ?_
  rw [List.filter_map]
  rfl

/-- The tasks of a bundle have its analysed validators as often as the plan lists them. -/
lemma count_listed (p : Plan) (b : Bundle) (v : ValidatorIndex) (pool : Option String) :
    (p.listed b).count (v, pool) = if v ∈ p.analysed b then p.listings v pool else 0 := by
  cases h : p.pools.isEmpty with
  | true =>
    rw [listed_batches h, listings, if_pos h]
    by_cases hpool : pool = none
    · subst hpool
      rw [List.count_map_of_injective _ _ fun _ _ h => (Prod.mk.inj h).1,
        (nodup_analysed p b).count, if_pos rfl]
    · have hnone : (v, pool) ∉ (p.analysed b).map fun v => (v, (none : Option String)) := by
        intro hmem
        obtain ⟨_, -, heq⟩ := List.mem_map.1 hmem
        exact hpool (Prod.mk.inj heq).2.symm
      rw [List.count_eq_zero.2 hnone, if_neg hpool, ite_self]
  | false =>
    rw [listed_pools h, listings, if_neg (Bool.eq_false_iff.1 h), count_filter_eq_ite]
    exact if_congr List.contains_iff_mem rfl rfl

/-! ### Rows of a window -/

/-- The validators with records of a bundle. -/
def resolved (p : Plan) (r : SlotRange) (b : Bundle) : List ValidatorIndex :=
  if r.writesValidatorRows b.window then (p.analysed b).filter b.resolves else []

lemma subjects_tasks {ts : List ValidatorTask} (h : ∀ t ∈ ts, t.bundle = b) :
    subjects (ts.flatMap (·.rows))
      = ((ts.flatMap fun t => t.validators.map (·, t.pool)).filter fun x => b.resolves x.1).map
        fun x => (x.1, b.window.next.epoch, x.2) := by
  induction ts with
  | nil => rfl
  | cons t ts ih =>
    have hrest := ih fun t ht => h t (List.mem_cons_of_mem _ ht)
    rw [List.flatMap_cons, List.flatMap_cons, subjects_append, hrest, t.subjects_rows,
      h t List.mem_cons_self, List.filter_append, List.map_append, List.filter_map, List.map_map]
    rfl

lemma taskRows_dispatches (h : p.dispatches r b = .ok ds) :
    taskRows ds
      = if r.writesValidatorRows b.window then (p.validatorTasks b).flatMap (·.rows) else [] := by
  rw [← rows_attemptsOf, attemptsOf_dispatches h]
  split
  · exact List.filterMap_flatMap
  · rfl

/-- What the rows of a bundle's tasks are about. -/
lemma subjects_dispatches (h : p.dispatches r b = .ok ds) :
    subjects (taskRows ds) = if r.writesValidatorRows b.window
      then ((p.listed b).filter fun x => b.resolves x.1).map
        fun x => (x.1, b.window.next.epoch, x.2) else [] := by
  rw [taskRows_dispatches h]
  split
  · exact subjects_tasks fun t ht => bundle_validatorTasks ht
  · rfl

/-- The epochs and validators of the records of a window. -/
def recordedOf (p : Plan) (net : Network) (r : SlotRange) (w : Window) :
    List (Epoch × ValidatorIndex) :=
  ((p.bundleOf net w).elim [] (p.resolved r)).map (w.next.epoch, ·)

lemma epoch_recordedOf (h : (e, v) ∈ p.recordedOf net r w) : w.next.epoch = e := by
  obtain ⟨_, -, heq⟩ := List.mem_map.1 h
  exact (Prod.mk.inj heq).1

/-- A validator with a record of a window has as many rows as it is listed. -/
lemma count_dispatches (h : p.dispatches r b = .ok ds) :
    (subjects (taskRows ds)).count (v, b.window.next.epoch, pool)
      = if v ∈ p.resolved r b then p.listings v pool else 0 := by
  rw [subjects_dispatches h, resolved]
  split
  · have hinj : Function.Injective
        fun x : ValidatorIndex × Option String => (x.1, b.window.next.epoch, x.2) := by
      rintro ⟨_, _⟩ ⟨_, _⟩ heq
      cases heq
      rfl
    have hcount := List.count_map_of_injective ((p.listed b).filter fun x => b.resolves x.1) _
      hinj (v, pool)
    rw [hcount, count_filter_eq_ite, count_listed, ← ite_and]
    exact if_congr (by rw [List.mem_filter, and_comm]) rfl rfl
  · rfl

lemma count_dispatchesOf (h : p.dispatchesOf net r w = .ok ds) :
    (subjects (taskRows ds)).count (v, e, pool)
      = if (e, v) ∈ p.recordedOf net r w then p.listings v pool else 0 := by
  unfold recordedOf
  cases hb : p.bundleOf net w with
  | none =>
    rw [dispatchesOf_none hb] at h
    cases h
    rfl
  | some b =>
    obtain ⟨more, hmore, rfl⟩ := (dispatchesOf_some hb).1 h
    obtain rfl := window_bundleOf hb
    rw [taskRows_append_done]
    by_cases he : b.window.next.epoch = e
    · subst he
      rw [count_dispatches hmore]
      exact if_congr (by simp) rfl rfl
    · have hnone : (v, e, pool) ∉ subjects (taskRows more) := by
        rw [subjects_dispatches hmore]
        split
        · intro hmem
          obtain ⟨_, -, heq⟩ := List.mem_map.1 hmem
          exact he (Prod.mk.inj (Prod.mk.inj heq).2).1
        · exact List.not_mem_nil
      have hother : (e, v) ∉ (p.resolved r b).map (b.window.next.epoch, ·) := by
        intro hmem
        obtain ⟨_, -, heq⟩ := List.mem_map.1 hmem
        exact he (Prod.mk.inj heq).1
      rw [List.count_eq_zero.2 hnone]
      exact (if_neg hother).symm

/-! ### Rows of all windows -/

/-- Of windows of distinct epochs, the one of an epoch has all rows about it. -/
lemma count_windows {ws : List Window} {dss : List (List Dispatch)}
    (h : List.Forall₂ (fun w ds => p.dispatchesOf net r w = .ok ds) ws dss)
    (hdistinct : (ws.map (·.next.epoch)).Nodup) :
    (subjects (taskRows dss.flatten)).count (v, e, pool)
      = if (e, v) ∈ ws.flatMap (p.recordedOf net r) then p.listings v pool else 0 := by
  induction h with
  | nil => rfl
  | @cons w ds ws dss hd _ ih =>
    obtain ⟨hfresh, hdistinct⟩ := List.nodup_cons.1 hdistinct
    rw [List.flatten_cons, taskRows_append, subjects_append, List.count_append,
      count_dispatchesOf hd, ih hdistinct, List.flatMap_cons]
    by_cases hw : (e, v) ∈ p.recordedOf net r w
    · have hlater : (e, v) ∉ ws.flatMap (p.recordedOf net r) := by
        intro hmem
        obtain ⟨w', hw', hrecorded⟩ := List.mem_flatMap.1 hmem
        have hsame : w'.next.epoch = w.next.epoch := by
          rw [epoch_recordedOf hw, epoch_recordedOf hrecorded]
        exact hfresh (List.mem_map.2 ⟨w', hw', hsame⟩)
      rw [if_pos hw, if_neg hlater, if_pos (List.mem_append_left _ hw), Nat.add_zero]
    · simp [hw]

/-! ### Deletions of windows -/

/-- The messages of a bundle have no rows of validators. -/
lemma rowsIn_epochMessages {ms : List Message} (h : p.epochMessages b = .ok ms) :
    rowsIn .validatorRewards ms = [] := by
  refine List.eq_nil_iff_forall_not_mem.2 fun row hrow => ?_
  obtain ⟨hmem, htable⟩ := mem_rowsIn.1 hrow
  have hslot := epochMessages_row h hmem
  rw [htable] at hslot
  cases hslot

/-- The messages of a bundle delete no rows of validators. -/
lemma clears_epochMessages {ms : List Message} (h : p.epochMessages b = .ok ms) :
    clearsOf .validatorRewards (ms.map .message) = [] := by
  cases hreplace : p.replaceRows with
  | true => exact epochMessages_clears hreplace h _
  | false =>
    rw [clearsOf_message]
    refine List.flatMap_eq_nil_iff.2 fun m hm => ?_
    have hadds := (epochMessages_ok hreplace h).1 m hm
    cases m with
    | row row => rfl
    | delete t slot => cases hadds

lemma touches_epochMessages {ms : List Message} (h : p.epochMessages b = .ok ms) :
    Touches .validatorRewards (ms.map .message) [] where
  spares := (epochMessages_spare h).imp fun hd => hd.sparesIn _
  clears d hd slot hslot := by
    rw [← clears_epochMessages h]
    exact List.mem_flatMap.2 ⟨d, hd, hslot⟩
  rows d hd row hrow htable := by
    obtain ⟨m, hm, rfl⟩ := List.mem_map.1 hd
    cases m with
    | delete t slot => cases hrow
    | row row' =>
      rw [List.mem_singleton.1 hrow] at htable ⊢
      have hslot := epochMessages_row h hm
      rw [htable] at hslot
      exact hslot

lemma touches_validatorDispatches (p : Plan) (b : Bundle) :
    Touches .validatorRewards (p.validatorDispatches b) [b.window.next.slot] where
  spares := (validatorDispatches_spare p b).imp fun hd => hd.sparesIn _
  clears d hd slot hslot := by
    rw [validatorDispatches, List.mem_append] at hd
    rcases hd with hd | hd
    · split at hd
      · rw [List.mem_singleton.1 hd] at hslot
        exact hslot
      · cases hd
    · obtain ⟨t, -, rfl⟩ := List.mem_map.1 hd
      cases hslot
  rows d hd row hrow htable := by
    have hslot := validatorDispatches_row hd hrow
    rw [htable] at hslot
    exact hslot

/-- What is dispatched of a window touches the rows of validators at its end. -/
lemma touches_dispatches (h : p.dispatches r b = .ok ds) :
    Touches .validatorRewards ds [b.window.next.slot] := by
  obtain ⟨ms, hm, rfl⟩ := dispatches_eq_ok.1 h
  have hfirst : Touches .validatorRewards (ms.map .message) [] := by
    split at hm
    · exact touches_epochMessages hm
    · cases hm
      exact .nil _ _
  have hlast : Touches .validatorRewards
      (if r.writesValidatorRows b.window then p.validatorDispatches b else [])
      [b.window.next.slot] := by
    split
    · exact touches_validatorDispatches p b
    · exact .nil _ _
  exact hfirst.append hlast nofun

lemma touches_dispatchesOf (h : p.dispatchesOf net r w = .ok ds) :
    Touches .validatorRewards ds [w.next.slot] := by
  cases hb : p.bundleOf net w with
  | none =>
    rw [dispatchesOf_none hb] at h
    cases h
    exact (Touches.nil _ _).done
  | some b =>
    obtain ⟨more, hmore, rfl⟩ := (dispatchesOf_some hb).1 h
    rw [← window_bundleOf hb]
    exact (touches_dispatches hmore).done

/-- Windows that end with slots of their own touch one slot each. -/
lemma touches_windows {ws : List Window} {dss : List (List Dispatch)}
    (h : List.Forall₂ (fun w ds => p.dispatchesOf net r w = .ok ds) ws dss)
    (hown : (ws.map (·.next.slot)).Nodup) :
    Touches .validatorRewards dss.flatten (ws.map (·.next.slot)) := by
  induction h with
  | nil => exact .nil _ _
  | @cons w ds ws dss hd _ ih =>
    obtain ⟨hfresh, hown⟩ := List.nodup_cons.1 hown
    refine (touches_dispatchesOf hd).append (ih hown) fun slot hslot => ?_
    rw [List.mem_singleton.1 hslot]
    exact hfresh

/-! ### Messages of windows -/

lemma rowsIn_dispatches (h : p.dispatches r b = .ok ds) :
    rowsIn .validatorRewards (messagesOf ds) = [] := by
  obtain ⟨ms, hm, rfl⟩ := dispatches_eq_ok.1 h
  have hfirst : rowsIn .validatorRewards ms = [] := by
    split at hm
    · exact rowsIn_epochMessages hm
    · cases hm
      rfl
  have hlast : rowsIn .validatorRewards (messagesOf
      (if r.writesValidatorRows b.window then p.validatorDispatches b else [])) = [] := by
    split
    · rw [validatorDispatches, messagesOf_append, messagesOf_map_task, List.append_nil]
      split <;> rfl
    · rfl
  rw [messagesOf_append, rowsIn_append, messagesOf_map_message, hfirst, hlast, List.append_nil]

/-- Rows of validators come of tasks only. -/
lemma rowsIn_windows {ws : List Window} {dss : List (List Dispatch)}
    (h : List.Forall₂ (fun w ds => p.dispatchesOf net r w = .ok ds) ws dss) :
    rowsIn .validatorRewards (messagesOf dss.flatten) = [] := by
  induction h with
  | nil => rfl
  | @cons w ds ws dss hd _ ih =>
    have hfirst : rowsIn .validatorRewards (messagesOf ds) = [] := by
      cases hb : p.bundleOf net w with
      | none =>
        rw [dispatchesOf_none hb] at hd
        cases hd
        rfl
      | some b =>
        obtain ⟨more, hmore, rfl⟩ := (dispatchesOf_some hb).1 hd
        rw [messagesOf_append_done]
        exact rowsIn_dispatches hmore
    rw [List.flatten_cons, messagesOf_append, rowsIn_append, hfirst, ih, List.append_nil]

/-! ### Runs -/

variable {σ : Type} {src : Source} {store : Store σ} {requests : Requests} {contents : σ}
  {fin : RunEnd σ} {report : RunReport}

/-- The epochs and validators of the records of a run. -/
def recorded (p : Plan) (net : Network) (src : Source) (requests : Requests) :
    List (Epoch × ValidatorIndex) :=
  (p.windows net src requests).flatMap (p.recordedOf net (p.slots net))

lemma nodup_next_epoch (hsrc : src.Dated net (p.slots net)) :
    ((p.windows net src requests).map (·.next.epoch)).Nodup := by
  have hall : ((p.windows net src requests).filter fun _ => true).map (·.next.epoch) = _ :=
    names_windows hsrc fun _ => true
  rw [List.filter_true] at hall
  rw [hall]
  exact (EpochSpan.nodup_toList _).filter _

lemma nodup_next_slot (hsrc : src.Dated net (p.slots net)) :
    ((p.windows net src requests).map (·.next.slot)).Nodup := by
  refine List.pairwise_map.2 (List.pairwise_filterMap.2 ?_)
  refine (EpochSpan.nodup_toList _).imp fun {e e'} hne w hw w' hw' hslot => hne ?_
  have hnext := (Outcomes.mem_of_windowAt hw).1
  have hnext' := (Outcomes.mem_of_windowAt hw').1
  rw [terminalSlot_snapshots hsrc hnext, terminalSlot_snapshots hsrc hnext'] at hslot
  exact epoch_unique hsrc hnext (mem_downloads hnext') hslot

/-- A completed run leaves the rows of its tasks in an empty store. -/
lemma Completed.validatorRows {a : Analysis σ} {queued : List Dispatch} {log : List Entry}
    (h : Completed p net src store requests contents a queued log)
    (hsrc : src.Dated net (p.slots net)) (ha : store.Accepting) (hk : store.Keeping)
    (hopen : store.isClosed contents = false) (hempty : ∀ t, store.rows contents t = .ok [])
    (hclose : store.close.run (a.writer.finish store).contents = .ok () fin.contents) :
    ∃ rows, store.rows fin.contents .validatorRewards = .ok rows ∧ rows.Perm (taskRows queued) := by
  obtain ⟨dss, hdss, rfl, -⟩ := processAll_dispatches h.dispatched
  have hshown := h.shown ha hk hopen hempty hclose .validatorRewards
  rw [h.interleaved.effect_in (touches_windows hdss (nodup_next_slot hsrc)).spares] at hshown
  refine ⟨_, hshown, ?_⟩
  have hperm := h.interleaved.perm_rowsIn .validatorRewards
  have htasks :
      (taskRows dss.flatten).filter (·.table = .validatorRewards) = taskRows dss.flatten :=
    List.filter_eq_self.2 fun row hrow => decide_eq_true (table_taskRows row hrow)
  rw [rowsIn_windows hdss, htasks] at hperm
  exact hperm

/-- Rows of validators are distinct if no validator with a record is listed twice. -/
lemma nodup_subjects {xs : List Subject} {recorded : List (Epoch × ValidatorIndex)}
    (h : ∀ v e pool, xs.count (v, e, pool) = if (e, v) ∈ recorded then p.listings v pool else 0) :
    xs.Nodup ↔ ∀ x ∈ recorded, ∀ pool, p.listings x.2 pool ≤ 1 := by
  rw [List.nodup_iff_count_le_one]
  constructor
  · rintro hall ⟨e, v⟩ hx pool
    have hcount := hall (v, e, pool)
    rw [h, if_pos hx] at hcount
    exact hcount
  · rintro hall ⟨v, e, pool⟩
    rw [h]
    split
    · next hx => exact hall (e, v) hx pool
    · exact Nat.zero_le 1

/-- **As many rows of a validator as the plan lists it.** Let states carry the epoch and the slot
that they are requested under, and let the store be empty, accept every call and keep what it is
given. Under every schedule, with or without replacements, a run that ends well leaves as many rows
about a validator with a record, its epoch and the name of a pool as the pools of that name list
the validator: without pools it is one, under no name. So no two rows are about the same if and
only if no validator with a record is listed twice under one name, and none is if the pools have
distinct names and list their validators once. -/
theorem Ends.counts_listings (hsrc : src.Dated net (p.slots net)) (ha : store.Accepting)
    (hk : store.Keeping) (hopen : store.isClosed contents = false)
    (hempty : ∀ t, store.rows contents t = .ok [])
    (h : p.Ends net src store requests contents fin) (hok : fin.result = .ok report) :
    ∃ rows, store.rows fin.contents .validatorRewards = .ok rows ∧
      (∀ v e pool, (subjects rows).count (v, e, pool)
        = if (e, v) ∈ p.recorded net src requests then p.listings v pool else 0) ∧
      ((subjects rows).Nodup
        ↔ ∀ x ∈ p.recorded net src requests, ∀ pool, p.listings x.2 pool ≤ 1) ∧
      ((p.pools.map (·.name)).Nodup → (∀ q ∈ p.pools, q.validators.Nodup) →
        (subjects rows).Nodup) := by
  obtain ⟨a, queued, log, hdone, -, hclose⟩ :=
    h.complete hok hsrc.placed (unshared_snapshots hsrc)
  obtain ⟨rows, hrows, hperm⟩ := hdone.validatorRows hsrc ha hk hopen hempty hclose
  obtain ⟨dss, hdss, rfl, -⟩ := processAll_dispatches hdone.dispatched
  have hcount (v : ValidatorIndex) (e : Epoch) (pool : Option String) :
      (subjects rows).count (v, e, pool)
        = if (e, v) ∈ p.recorded net src requests then p.listings v pool else 0 := by
    have hsubjects : (subjects rows).Perm (subjects (taskRows dss.flatten)) :=
      hperm.filterMap Row.subject?
    rw [hsubjects.count_eq]
    exact count_windows hdss (nodup_next_epoch hsrc)
  refine ⟨rows, hrows, hcount, nodup_subjects hcount, fun hnames hvalidators => ?_⟩
  exact (nodup_subjects hcount).2 fun x _ pool => listings_le_one hnames hvalidators x.2 pool

/-- The first two epochs, with the only validator in two pools of one name, of which one lists it
twice, and in another one. -/
def sharedPlan : Plan :=
  { rewritePlan with pools := [⟨"north", [0, 0]⟩, ⟨"south", [0]⟩, ⟨"north", [0]⟩] }

/-- Every epoch has three rows of it under one name and one under the other. -/
theorem shared_counts_listings :
    briefSource.Dated briefNetwork (sharedPlan.slots briefNetwork) ∧
      MemoryStore.store.Accepting ∧ MemoryStore.store.Keeping ∧
        MemoryStore.store.isClosed .empty = false ∧
          (∀ t, MemoryStore.store.rows .empty t = .ok []) ∧ ∃ fin report rows,
            sharedPlan.Ends briefNetwork briefSource MemoryStore.store .none .empty fin ∧
              fin.result = .ok report ∧
                MemoryStore.store.rows fin.contents .validatorRewards = .ok rows ∧
                  (subjects rows).count (0, 1, some "north") = 3 ∧
                    (subjects rows).count (0, 1, some "south") = 1 ∧ ¬ (subjects rows).Nodup := by
  have hends := ends_run sharedPlan briefNetwork briefSource MemoryStore.store .none .empty
  have hok : (sharedPlan.run briefNetwork briefSource MemoryStore.store false .none
      .empty).result.toOption.isSome = true := by cbv
  have hsrc : briefSource.Dated briefNetwork (sharedPlan.slots briefNetwork) :=
    labelled_briefSource.dated
  have hrecorded : sharedPlan.recorded briefNetwork briefSource .none = [(0, 0), (1, 0)] := by cbv
  obtain ⟨report, hreport⟩ := Calc.ok_of_isSome hok
  obtain ⟨rows, hrows, hcount, hnodup, -⟩ := Ends.counts_listings hsrc MemoryStore.accepting_store
    MemoryStore.keeping_store rfl MemoryStore.rows_empty hends hreport
  rw [hrecorded] at hcount hnodup
  refine ⟨hsrc, MemoryStore.accepting_store, MemoryStore.keeping_store, rfl,
    MemoryStore.rows_empty, _, report, rows, hends, hreport, hrows, ?_, ?_, fun hall => ?_⟩
  · rw [hcount]
    decide
  · rw [hcount]
    decide
  · have htwice := hnodup.1 hall (1, 0) (by decide) (some "north")
    revert htwice
    decide

/-- A plan that is accepted can lead to several rows about one validator, epoch and pool. -/
theorem not_always_distinct :
    ¬ ∀ (p : Plan) (net : Network) (src : Source) (fin : RunEnd MemoryStore) (report : RunReport),
      p.validate = .ok () → src.Dated net (p.slots net) →
      p.Ends net src MemoryStore.store .none .empty fin → fin.result = .ok report →
      ∀ x, (subjects (fin.contents.rows .validatorRewards)).count x ≤ 1 := by
  intro hall
  have hok : (sharedPlan.run briefNetwork briefSource MemoryStore.store false .none
      .empty).result.toOption.isSome = true := by cbv
  have hthree : (subjects ((sharedPlan.run briefNetwork briefSource MemoryStore.store false .none
      .empty).contents.rows .validatorRewards)).count (0, 1, some "north") = 3 := by cbv
  obtain ⟨report, hreport⟩ := Calc.ok_of_isSome hok
  have hone := hall sharedPlan briefNetwork briefSource _ report rfl labelled_briefSource.dated
    (ends_run _ _ _ _ _ _) hreport (0, 1, some "north")
  rw [hthree] at hone
  exact absurd hone (by decide)

end Plan

end EpochRewards
