import EpochRewards.Proofs.Interleaving

/-!
Slots that are cleared for new rows.

Whatever is dispatched clears a slot of a table before there are rows of that slot, and a crew
makes no row before its task is queued. So of any log a table keeps the old rows of the slots that
were not cleared, in their order, and after them has all rows of the log.
-/

namespace EpochRewards

namespace Message

/-- The slots of a table that a message clears. -/
def clears (t : Table) : Message → List Slot
  | .row _ => []
  | .delete u slot => if u = t then [slot] else []

end Message

namespace Dispatch

/-- The rows that come of what is dispatched. -/
def rows : Dispatch → List Row
  | .message (.row row) => [row]
  | .task t => t.rows
  | .message (.delete ..) | .done => []

def clears (t : Table) : Dispatch → List Slot
  | .message m => m.clears t
  | .task _ | .done => []

/-- What is dispatched later does not clear the slots of these rows. -/
def Spares (d d' : Dispatch) : Prop := ∀ row ∈ d.rows, row.slot ∉ d'.clears row.table

/-- What is dispatched later does not clear the slots of those of these rows that are in the
table. -/
def SparesIn (t : Table) (d d' : Dispatch) : Prop :=
  ∀ row ∈ d.rows, row.table = t → row.slot ∉ d'.clears t

variable {d d' : Dispatch}

lemma Spares.sparesIn (h : d.Spares d') (t : Table) : d.SparesIn t d' := by
  rintro row hrow rfl
  exact h row hrow

lemma spares_of_rows_nil (h : d.rows = []) : d.Spares d' := by
  intro row hrow
  rw [h] at hrow
  cases hrow

lemma spares_of_clears_nil (h : ∀ t, d'.clears t = []) : d.Spares d' := by
  intro row _ hslot
  rw [h] at hslot
  cases hslot

end Dispatch

/-- The slots of a table that are cleared by what is dispatched. -/
def clearsOf (t : Table) (ds : List Dispatch) : List Slot := ds.flatMap (·.clears t)

@[simp] lemma clearsOf_append (t : Table) (ds es : List Dispatch) :
    clearsOf t (ds ++ es) = clearsOf t ds ++ clearsOf t es := List.flatMap_append

lemma clearsOf_message (t : Table) (ms : List Message) :
    clearsOf t (ms.map .message) = ms.flatMap (·.clears t) := List.flatMap_map ..

lemma clearsOf_task (t : Table) (ts : List ValidatorTask) : clearsOf t (ts.map .task) = [] := by
  rw [clearsOf, List.flatMap_map]
  exact List.flatMap_eq_nil_iff.2 fun _ _ => rfl

lemma mem_rowsIn {t : Table} {row : Row} {ms : List Message} :
    row ∈ rowsIn t ms ↔ Message.row row ∈ ms ∧ row.table = t := by
  rw [rowsIn, List.mem_filterMap]
  constructor
  · rintro ⟨m, hm, h⟩
    cases m with
    | delete u slot => cases h
    | row r =>
      dsimp only at h
      split at h
      · next ht =>
        cases h
        exact ⟨hm, ht⟩
      · cases h
  · rintro ⟨hm, ht⟩
    exact ⟨_, hm, if_pos ht⟩

/-- A message that spares the new rows leaves them in place, before the row that it adds. -/
lemma Message.effect_spared {t : Table} {m : Message} {new : List Row} (cleared : List Slot)
    (old : List Row) (h : ∀ row ∈ new, row.slot ∉ m.clears t) :
    m.effect t (old.filter (fun row => row.slot ∉ cleared) ++ new)
      = old.filter (fun row => row.slot ∉ cleared ++ m.clears t) ++ (new ++ rowsIn t [m]) := by
  cases m with
  | row row =>
    rw [clears, List.append_nil, rowsIn_cons, effect]
    split
    · exact List.append_assoc _ _ _
    · rw [List.nil_append]
      exact congrArg _ (List.append_nil _).symm
  | delete u slot =>
    have hnone : rowsIn t [.delete u slot] = [] := rfl
    rw [hnone, List.append_nil, clears, effect]
    split
    · next hu =>
      have hkept : ∀ row ∈ new, (row.slot != slot) = true := by
        intro row hrow
        have hslot := h row hrow
        rw [clears, if_pos hu, List.mem_singleton] at hslot
        exact bne_iff_ne.2 hslot
      rw [List.filter_append, List.filter_eq_self.2 hkept, List.filter_filter]
      congr 1
      refine List.filter_congr fun row _ => ?_
      rw [Bool.eq_iff_iff, Bool.and_eq_true, decide_eq_true_eq, decide_eq_true_eq, bne_iff_ne,
        List.mem_append, List.mem_singleton, not_or, and_comm]
    · rw [List.append_nil]

/-! ### Logs -/

/-- The rows of a log are those of its messages and those of the crew, in some order. -/
lemma rowsIn_log_perm (t : Table) (log : List Entry) :
    (rowsIn t (log.map Entry.message)).Perm
      (rowsIn t (log.filterMap Sum.getLeft?)
        ++ (log.filterMap Sum.getRight?).filter (·.table = t)) := by
  induction log with
  | nil => exact .refl _
  | cons x log ih =>
    cases x with
    | inl m =>
      show (rowsIn t ([m] ++ log.map Entry.message)).Perm
        (rowsIn t ([m] ++ log.filterMap Sum.getLeft?) ++ _)
      rw [rowsIn_append, rowsIn_append, List.append_assoc]
      exact ih.append_left _
    | inr row =>
      show (rowsIn t (.row row :: log.map Entry.message)).Perm
        (_ ++ (row :: log.filterMap Sum.getRight?).filter (·.table = t))
      rw [rowsIn_cons, List.filter_cons]
      by_cases ht : row.table = t
      · rw [if_pos ht, if_pos (decide_eq_true ht)]
        exact (ih.cons row).trans List.perm_middle.symm
      · rw [if_neg ht, if_neg (by simpa using ht)]
        exact ih

namespace Interleaved

variable {queued : List Dispatch} {pending : List Attempt} {log : List Entry}

/-- Every row in the log was dispatched. -/
lemma dispatched (h : Interleaved queued pending log) {row : Row}
    (hrow : Message.row row ∈ log.map Entry.message) : ∃ d ∈ queued, row ∈ d.rows := by
  obtain ⟨x, hx, he⟩ := List.mem_map.1 hrow
  cases x with
  | inl m =>
    have hm : m ∈ messagesOf queued := by
      rw [← h.messages]
      exact List.mem_filterMap.2 ⟨_, hx, rfl⟩
    obtain ⟨d, hd, hdm⟩ := List.mem_filterMap.1 hm
    cases d with
    | task t => cases hdm
    | done => cases hdm
    | message m' =>
      cases hdm
      rw [show m = .row row from he] at hd
      exact ⟨_, hd, List.mem_singleton_self row⟩
  | inr row' =>
    cases he
    have htask := h.rows_subset row (List.mem_filterMap.2 ⟨_, hx, rfl⟩)
    obtain ⟨t, ht, hrow⟩ := List.mem_flatMap.1 htask
    obtain ⟨d, hd, hdt⟩ := List.mem_filterMap.1 ht
    cases d with
    | message m => cases hdt
    | done => cases hdt
    | task t' =>
      cases hdt
      exact ⟨_, hd, hrow⟩

/-- **What a log does to a table.** The old rows of cleared slots go, the rows of the log come
after the others. -/
theorem effect_in {t : Table} (h : Interleaved queued pending log)
    (hs : queued.Pairwise (Dispatch.SparesIn t)) (old : List Row) :
    (log.map Entry.message).foldl (Message.effect t) old
      = old.filter (fun row => row.slot ∉ clearsOf t queued)
        ++ rowsIn t (log.map Entry.message) := by
  induction h with
  | nil =>
    have hall : old.filter (fun row => row.slot ∉ clearsOf t []) = old :=
      List.filter_eq_self.2 fun row _ => decide_eq_true List.not_mem_nil
    rw [hall]
    exact (List.append_nil old).symm
  | @message queued pending log h m ih =>
    obtain ⟨hqueued, -, hspares⟩ := List.pairwise_append.1 hs
    have hone : clearsOf t [.message m] = m.clears t := List.flatMap_singleton _ _
    rw [List.map_append, List.foldl_append, ih hqueued, rowsIn_append, clearsOf_append, hone]
    -- No row of the log is lost: none was dispatched for a slot that is cleared.
    refine Message.effect_spared _ old fun row hrow => ?_
    obtain ⟨hlogged, rfl⟩ := mem_rowsIn.1 hrow
    obtain ⟨d, hd, hrows⟩ := h.dispatched hlogged
    exact hspares d hd _ (List.mem_singleton_self _) row hrows rfl
  | @task queued pending log h task ih =>
    obtain ⟨hqueued, -, -⟩ := List.pairwise_append.1 hs
    have hnone : clearsOf t [.task task] = [] := rfl
    rw [ih hqueued, clearsOf_append, hnone, List.append_nil]
  | @done queued pending log h ih =>
    obtain ⟨hqueued, -, -⟩ := List.pairwise_append.1 hs
    have hnone : clearsOf t [.done] = [] := rfl
    rw [ih hqueued, clearsOf_append, hnone, List.append_nil]
  | @attempt queued x pending log h hx ih =>
    rw [List.map_append, List.foldl_append, ih hs, rowsIn_append]
    cases x.row? with
    | none =>
      rw [← List.append_assoc]
      exact (List.append_nil _).symm
    | some row =>
      have hspared : ∀ r ∈ rowsIn t (log.map Entry.message), r.slot ∉ Message.clears t (.row row) :=
        fun _ _ => List.not_mem_nil
      have hadd := Message.effect_spared (clearsOf t queued) old hspared
      rw [Message.clears, List.append_nil] at hadd
      exact hadd
  | reorder _ _ ih => exact ih hs

/-- What is dispatched may spare the rows of all tables. -/
lemma effect (h : Interleaved queued pending log) (hs : queued.Pairwise Dispatch.Spares)
    (t : Table) (old : List Row) :
    (log.map Entry.message).foldl (Message.effect t) old
      = old.filter (fun row => row.slot ∉ clearsOf t queued)
        ++ rowsIn t (log.map Entry.message) :=
  h.effect_in (hs.imp fun hd => hd.sparesIn t) old

/-- When all attempts have been made, the rows of a log are those of the messages and those of the
tasks, in some order. -/
lemma perm_rowsIn (h : Interleaved queued [] log) (t : Table) :
    (rowsIn t (log.map Entry.message)).Perm
      (rowsIn t (messagesOf queued) ++ (taskRows queued).filter (·.table = t)) := by
  rw [← h.messages]
  exact (rowsIn_log_perm t log).trans ((h.rows.filter _).append_left _)

end Interleaved

/-! ### Windows -/

/-- The slots of a table with rows about the first epoch of a window. -/
def Window.firstSlots (w : Window) : Table → List Slot
  | .validatorRewards => []
  | .epochSummary => [w.prev.slot]
  | .proposerDuties => w.prev.duties.proposers.map (·.slot)
  | .blocks | .attestations | .withdrawals => w.prev.blocks.map (·.slot)

/-- The slots of a table with rows about the last epoch of a window. -/
def Window.lastSlots (w : Window) : Table → List Slot
  | .validatorRewards => [w.next.slot]
  | _ => []

/-- The slots of a table that get new rows from a window with a bundle. -/
def SlotRange.renewed (r : SlotRange) (w : Window) (t : Table) : List Slot :=
  (if r.writesEpochRows w then w.firstSlots t else [])
    ++ if r.writesValidatorRows w then w.lastSlots t else []

/-- No table has rows about both the first and the last epoch of a window. -/
lemma Window.not_mem_lastSlots {w : Window} {t : Table} {slot : Slot} (h : slot ∈ w.firstSlots t) :
    slot ∉ w.lastSlots t := by
  cases t with
  | validatorRewards => cases h
  | epochSummary | proposerDuties | blocks | attestations | withdrawals => exact List.not_mem_nil

/-- What is dispatched clears these slots and has rows of no others. A slot is cleared before there
are rows of it. -/
structure Renews (ds : List Dispatch) (slots : Table → List Slot) : Prop where
  spares : ds.Pairwise Dispatch.Spares
  clears : ∀ t, clearsOf t ds = slots t
  rows : ∀ d ∈ ds, ∀ row ∈ d.rows, row.slot ∈ slots row.table

namespace Renews

lemma nil : Renews [] fun _ => [] :=
  ⟨.nil, fun _ => rfl, fun _ hd => absurd hd List.not_mem_nil⟩

/-- What follows must not clear the slots that there are rows of already. -/
lemma append {ds es : List Dispatch} {slots later : Table → List Slot} (h : Renews ds slots)
    (h' : Renews es later) (hapart : ∀ t, ∀ slot ∈ slots t, slot ∉ later t) :
    Renews (ds ++ es) fun t => slots t ++ later t := by
  refine ⟨List.pairwise_append.2 ⟨h.spares, h'.spares, ?_⟩, fun t => ?_, fun d hd row hrow => ?_⟩
  · intro d hd d' hd' row hrow hslot
    have hmem : row.slot ∈ clearsOf row.table es := List.mem_flatMap.2 ⟨d', hd', hslot⟩
    rw [h'.clears] at hmem
    exact hapart row.table row.slot (h.rows d hd row hrow) hmem
  · rw [clearsOf_append, h.clears, h'.clears]
  · rcases List.mem_append.1 hd with hd | hd
    · exact List.mem_append_left _ (h.rows d hd row hrow)
    · exact List.mem_append_right _ (h'.rows d hd row hrow)

/-- The end of a window has no rows and clears nothing. -/
lemma done {ds : List Dispatch} {slots : Table → List Slot} (h : Renews ds slots) :
    Renews (ds ++ [.done]) slots := by
  have hdone : Renews [.done] fun _ => [] :=
    ⟨List.pairwise_singleton _ _, fun _ => rfl, fun d hd row hrow => by
      rw [List.mem_singleton.1 hd] at hrow
      cases hrow⟩
  have happend := h.append hdone fun _ _ _ => List.not_mem_nil
  simpa only [List.append_nil] using happend

end Renews

namespace Bundle

variable {b : Bundle}

lemma slot_epochSummary {summary : EpochSummary} (h : b.epochSummary = .ok summary) :
    summary.slot = b.window.prev.slot := by
  simp only [epochSummary, Calc.bind_ok, Calc.pure_ok] at h
  obtain ⟨_, -, _, -, rfl⟩ := h
  rfl

lemma slots_proposerDuties (b : Bundle) :
    b.proposerDuties.map (·.slot) = b.window.prev.duties.proposers.map (·.slot) := by
  rw [proposerDuties, List.map_map]
  rfl

lemma slots_blockSummaries {blocks : List BlockSummary} (h : b.blockSummaries = .ok blocks) :
    blocks.map (·.slot) = b.window.prev.blocks.map (·.slot) := by
  have hall := Calc.mapM_ok.1 h
  clear h
  generalize b.window.prev.blocks = listed at hall
  induction hall with
  | nil => rfl
  | cons hs _ ih =>
    simp only [blockSummary, Calc.bind_ok, Calc.pure_ok] at hs
    obtain ⟨_, -, rfl⟩ := hs
    rw [List.map_cons, List.map_cons, ih]

lemma mem_attestationRecords {x : AttestationRecord} (h : x ∈ b.attestationRecords) :
    x.slot ∈ b.window.prev.blocks.map (·.slot) := by
  obtain ⟨block, hblock, hx⟩ := List.mem_flatMap.1 h
  obtain ⟨_, -, rfl⟩ := List.mem_map.1 hx
  exact List.mem_map.2 ⟨block, hblock, rfl⟩

lemma mem_withdrawalRecords {x : WithdrawalRecord} (h : x ∈ b.withdrawalRecords) :
    x.slot ∈ b.window.prev.blocks.map (·.slot) := by
  obtain ⟨block, hblock, hx⟩ := List.mem_flatMap.1 h
  obtain ⟨_, -, rfl⟩ := List.mem_map.1 hx
  exact List.mem_map.2 ⟨block, hblock, rfl⟩

end Bundle

namespace Plan

variable {p : Plan} {net : Network} {r : SlotRange} {b : Bundle} {ms : List Message}
  {ds : List Dispatch}

lemma clears_clearings {summary : EpochSummary} {blocks : List BlockSummary}
    (hs : b.epochSummary = .ok summary) (hb : b.blockSummaries = .ok blocks) (t : Table) :
    (clearings summary b.proposerDuties blocks).flatMap (·.clears t) = b.window.firstSlots t := by
  have hsummary : Message.clears t (.delete .epochSummary summary.slot)
      = if Table.epochSummary = t then [b.window.prev.slot] else [] := by
    rw [← Bundle.slot_epochSummary hs]
    rfl
  have hduties : (b.proposerDuties.map fun d => Message.delete .proposerDuties d.slot).flatMap
      (·.clears t) = if Table.proposerDuties = t
        then b.window.prev.duties.proposers.map (·.slot) else [] := by
    rw [← Bundle.slots_proposerDuties, List.flatMap_map]
    split
    · next h =>
      rw [List.map_eq_flatMap]
      exact congrArg (List.flatMap · _) (funext fun d => if_pos h)
    · next h => exact List.flatMap_eq_nil_iff.2 fun d _ => if_neg h
  have hblocks : (blocks.flatMap fun x => blockTables.map fun t => Message.delete t x.slot).flatMap
      (·.clears t) = if t ∈ blockTables then b.window.prev.blocks.map (·.slot) else [] := by
    have hone (x : BlockSummary) : (blockTables.map fun t => Message.delete t x.slot).flatMap
        (·.clears t) = if t ∈ blockTables then [x.slot] else [] := by
      cases t <;> rfl
    rw [← Bundle.slots_blockSummaries hb, List.flatMap_assoc, List.map_eq_flatMap]
    simp only [hone]
    split
    · rfl
    · exact List.flatMap_eq_nil_iff.2 fun _ _ => rfl
  rw [clearings, List.cons_append, List.flatMap_cons, List.flatMap_append, hduties, hblocks,
    hsummary]
  cases t <;> simp [blockTables, Window.firstSlots]

/-- The rows of a bundle are of slots with rows about the first epoch. -/
lemma epochMessages_row (h : p.epochMessages b = .ok ms) {row : Row}
    (hrow : Message.row row ∈ ms) : row.slot ∈ b.window.firstSlots row.table := by
  simp only [epochMessages, Calc.bind_ok, Calc.pure_ok] at h
  obtain ⟨summary, hs, blocks, hb, rfl⟩ := h
  have hclearings : Message.row row ∉ clearings summary b.proposerDuties blocks := by
    simp [clearings]
  have hrows : Message.row row
      ∉ if p.replaceRows then clearings summary b.proposerDuties blocks else [] := by
    split
    · exact hclearings
    · exact List.not_mem_nil
  obtain ⟨row', hmem, he⟩ := List.mem_map.1 ((List.mem_append.1 hrow).resolve_left hrows)
  cases he
  rw [List.mem_append, List.mem_append, List.mem_append, List.mem_cons] at hmem
  rcases hmem with (((rfl | hduty) | hblock) | hattestation) | hwithdrawal
  · exact List.mem_singleton.2 (Bundle.slot_epochSummary hs)
  · obtain ⟨d, hd, rfl⟩ := List.mem_map.1 hduty
    show d.slot ∈ b.window.prev.duties.proposers.map (·.slot)
    rw [← Bundle.slots_proposerDuties]
    exact List.mem_map.2 ⟨d, hd, rfl⟩
  · obtain ⟨x, hx, rfl⟩ := List.mem_map.1 hblock
    show x.slot ∈ b.window.prev.blocks.map (·.slot)
    rw [← Bundle.slots_blockSummaries hb]
    exact List.mem_map.2 ⟨x, hx, rfl⟩
  · obtain ⟨x, hx, rfl⟩ := List.mem_map.1 hattestation
    exact Bundle.mem_attestationRecords hx
  · obtain ⟨x, hx, rfl⟩ := List.mem_map.1 hwithdrawal
    exact Bundle.mem_withdrawalRecords hx

lemma epochMessages_clears (hreplace : p.replaceRows = true) (h : p.epochMessages b = .ok ms)
    (t : Table) : clearsOf t (ms.map .message) = b.window.firstSlots t := by
  simp only [epochMessages, Calc.bind_ok, Calc.pure_ok, if_pos hreplace] at h
  obtain ⟨summary, hs, blocks, hb, rfl⟩ := h
  have hnone (rows : List Row) : (rows.map Message.row).flatMap (·.clears t) = [] := by
    rw [List.flatMap_map]
    exact List.flatMap_eq_nil_iff.2 fun _ _ => rfl
  rw [clearsOf_message, List.flatMap_append, hnone, List.append_nil, clears_clearings hs hb]

/-- The messages of a bundle clear slots first and add rows then. -/
lemma epochMessages_spare (h : p.epochMessages b = .ok ms) :
    (ms.map Dispatch.message).Pairwise Dispatch.Spares := by
  simp only [epochMessages, Calc.bind_ok, Calc.pure_ok] at h
  obtain ⟨summary, -, blocks, -, rfl⟩ := h
  have hclearings : ∀ m ∈ (if p.replaceRows then clearings summary b.proposerDuties blocks else []),
      (Dispatch.message m).rows = [] := by
    intro m hm
    split at hm
    · cases m with
      | delete t slot => rfl
      | row row => simp [clearings] at hm
    · cases hm
  rw [List.map_append, List.pairwise_append]
  refine ⟨?_, ?_, fun d hd d' _ => ?_⟩
  · refine List.pairwise_of_forall_mem_list fun d hd d' _ => ?_
    obtain ⟨m, hm, rfl⟩ := List.mem_map.1 hd
    exact Dispatch.spares_of_rows_nil (hclearings m hm)
  · rw [List.map_map]
    refine List.pairwise_of_forall_mem_list fun d _ d' hd' => ?_
    obtain ⟨row, -, rfl⟩ := List.mem_map.1 hd'
    exact Dispatch.spares_of_clears_nil fun _ => rfl
  · obtain ⟨m, hm, rfl⟩ := List.mem_map.1 hd
    exact Dispatch.spares_of_rows_nil (hclearings m hm)

lemma epochMessages_renew (hreplace : p.replaceRows = true) (h : p.epochMessages b = .ok ms) :
    Renews (ms.map .message) b.window.firstSlots where
  spares := epochMessages_spare h
  clears := epochMessages_clears hreplace h
  rows d hd row hrow := by
    obtain ⟨m, hm, rfl⟩ := List.mem_map.1 hd
    cases m with
    | delete u slot => cases hrow
    | row row' =>
      rw [List.mem_singleton.1 hrow]
      exact epochMessages_row h hm

lemma validatorDispatches_row {d : Dispatch} (hd : d ∈ p.validatorDispatches b) {row : Row}
    (hrow : row ∈ d.rows) : row.slot ∈ b.window.lastSlots row.table := by
  rw [validatorDispatches, List.mem_append] at hd
  rcases hd with hd | hd
  · split at hd
    · rw [List.mem_singleton.1 hd] at hrow
      cases hrow
    · cases hd
  · obtain ⟨t, ht, rfl⟩ := List.mem_map.1 hd
    obtain ⟨rec, rfl, hslot⟩ := ValidatorTask.mem_rows hrow
    rw [bundle_validatorTasks ht] at hslot
    exact List.mem_singleton.2 hslot

lemma validatorDispatches_clears (hreplace : p.replaceRows = true) (t : Table) :
    clearsOf t (p.validatorDispatches b) = b.window.lastSlots t := by
  rw [validatorDispatches, if_pos hreplace, clearsOf_append, clearsOf_task, List.append_nil]
  cases t <;> rfl

lemma validatorDispatches_spare (p : Plan) (b : Bundle) :
    (p.validatorDispatches b).Pairwise Dispatch.Spares := by
  rw [validatorDispatches, List.pairwise_append]
  refine ⟨?_, ?_, fun d _ d' hd' => ?_⟩
  · split
    · exact List.pairwise_singleton _ _
    · exact .nil
  · refine List.pairwise_of_forall_mem_list fun d _ d' hd' => ?_
    obtain ⟨t, -, rfl⟩ := List.mem_map.1 hd'
    exact Dispatch.spares_of_clears_nil fun _ => rfl
  · obtain ⟨t, -, rfl⟩ := List.mem_map.1 hd'
    exact Dispatch.spares_of_clears_nil fun _ => rfl

lemma validatorDispatches_renew (hreplace : p.replaceRows = true) :
    Renews (p.validatorDispatches b) b.window.lastSlots where
  spares := validatorDispatches_spare p b
  clears := validatorDispatches_clears hreplace
  rows _ hd _ hrow := validatorDispatches_row hd hrow

/-- What is dispatched of a bundle renews the slots of its window. -/
lemma dispatches_renew (hreplace : p.replaceRows = true) (h : p.dispatches r b = .ok ds) :
    Renews ds (r.renewed b.window) := by
  obtain ⟨ms, hm, rfl⟩ := dispatches_eq_ok.1 h
  have hfirst : Renews (ms.map .message) fun t =>
      if r.writesEpochRows b.window then b.window.firstSlots t else [] := by
    split at hm
    · next hw =>
      simp only [if_pos hw]
      exact epochMessages_renew hreplace hm
    · next hw =>
      cases hm
      simp only [if_neg hw]
      exact .nil
  have hlast : Renews (if r.writesValidatorRows b.window then p.validatorDispatches b else [])
      fun t => if r.writesValidatorRows b.window then b.window.lastSlots t else [] := by
    split
    · exact validatorDispatches_renew hreplace
    · exact .nil
  refine hfirst.append hlast fun t slot hslot hslot' => ?_
  split at hslot
  · split at hslot'
    · exact Window.not_mem_lastSlots hslot hslot'
    · cases hslot'
  · cases hslot

/-- The slots of a table that a window clears. -/
def cleared (p : Plan) (net : Network) (r : SlotRange) (t : Table) (w : Window) : List Slot :=
  if (p.bundleOf net w).isSome then r.renewed w t else []

lemma dispatchesOf_renew (hreplace : p.replaceRows = true) {w : Window}
    (h : p.dispatchesOf net r w = .ok ds) : Renews ds fun t => p.cleared net r t w := by
  unfold cleared
  cases hb : p.bundleOf net w with
  | none =>
    rw [dispatchesOf_none hb] at h
    cases h
    exact Renews.nil.done
  | some b =>
    obtain ⟨more, hmore, rfl⟩ := (dispatchesOf_some hb).1 h
    rw [← window_bundleOf hb]
    exact (dispatches_renew hreplace hmore).done

/-- Windows that clear slots of their own renew all of them. -/
lemma processAll_renew (hreplace : p.replaceRows = true) {ws : List Window}
    {report : DispatchReport} (h : p.processAll net r ws = .ok (report, ds))
    (hown : ws.Pairwise fun w w' => ∀ t, ∀ slot ∈ p.cleared net r t w,
      slot ∉ p.cleared net r t w') :
    Renews ds fun t => ws.flatMap (p.cleared net r t) := by
  obtain ⟨dss, hdss, rfl, -⟩ := processAll_dispatches h
  clear h
  induction hdss with
  | nil => exact .nil
  | @cons w ds ws dss hd _ ih =>
    obtain ⟨hfirst, hown⟩ := List.pairwise_cons.1 hown
    simp only [List.flatten_cons, List.flatMap_cons]
    refine (dispatchesOf_renew hreplace hd).append (ih hown) fun t slot hslot hslot' => ?_
    obtain ⟨w', hw', hslot'⟩ := List.mem_flatMap.1 hslot'
    exact hfirst w' hw' t slot hslot hslot'

end Plan

end EpochRewards
