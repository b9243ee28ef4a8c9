import EpochRewards.Proofs.Stores
import EpochRewards.Proofs.Yields
import EpochRewards.Store.Journal

/-!
What a writer hands over, whatever the store answers.

A batch leaves its buffer before the store is asked, so a refused batch is lost but never handed
over again. The calls of a writer are noted with their answers. Between two of its states they
carry the rows that were collected before and those of the messages in between, up to the rows
that are still collected, and this adds up over any number of messages.
-/

namespace EpochRewards

variable {σ : Type}

/-- A call and whether the store carried it out. -/
structure Noted where
  call : StoreCall
  accepted : Bool
  deriving DecidableEq

namespace Store

def noting (call : StoreCall) (op : StoreOp σ Unit) : StoreOp (σ × List Noted) Unit :=
  fun (s, calls) =>
    match op.run s with
    | .ok _ s => .ok () (s, calls ++ [⟨call, true⟩])
    | .error e s => .error e (s, calls ++ [⟨call, false⟩])

/-- Notes the calls that come with rows or slots, each with its answer. -/
def audited (st : Store σ) : Store (σ × List Noted) where
  persist t rows := noting (.persist t rows) (st.persist t rows)
  deleteSlot t slot := noting (.delete t slot) (st.deleteSlot t slot)
  close := beside st.close
  rows s t := st.rows s.1 t
  isClosed s := st.isClosed s.1

end Store

/-! ### What calls carry -/

namespace Noted

/-- The rows that a call brings for a table. -/
def rowsFor (t : Table) (c : Noted) : List Row :=
  match c.call with
  | .persist u rows => if u = t then rows else []
  | .delete .. => []

def deletion? (c : Noted) : Option (Table × Slot) :=
  match c.call with
  | .persist .. => none
  | .delete t slot => some (t, slot)

/-- A batch that was accepted. -/
def isFlush (c : Noted) : Bool := c.accepted && c.deletion?.isNone

/-- A deletion that was accepted. -/
def isDeletion (c : Noted) : Bool := c.accepted && c.deletion?.isSome

end Noted

/-- The rows handed over for a table one call after another, accepted or not. -/
def handedOver (t : Table) (calls : List Noted) : List Row := calls.flatMap (Noted.rowsFor t)

def deletionsOf (calls : List Noted) : List (Table × Slot) := calls.filterMap Noted.deletion?

def Message.deletion? : Message → Option (Table × Slot)
  | .row _ => none
  | .delete t slot => some (t, slot)

/-- The deletions that messages ask for. -/
def deletionsIn (ms : List Message) : List (Table × Slot) := ms.filterMap Message.deletion?

/-- What an answered call adds to the report. -/
def WriterReport.count (r : WriterReport) (c : Noted) : WriterReport :=
  match c.call, c.accepted with
  | .persist _ rows, true =>
    { r with rowsWritten := r.rowsWritten + rows.length, flushes := r.flushes + 1 }
  | .persist _ rows, false => { r with rowsLost := r.rowsLost + rows.length }
  | .delete .., accepted => { r with deletes := r.deletes + accepted.toNat }

@[simp] lemma handedOver_nil (t : Table) : handedOver t [] = [] := rfl

@[simp] lemma handedOver_append (t : Table) (calls more : List Noted) :
    handedOver t (calls ++ more) = handedOver t calls ++ handedOver t more := List.flatMap_append

@[simp] lemma handedOver_batch (t u : Table) (rows : List Row) (accepted : Bool) :
    handedOver t [⟨.persist u rows, accepted⟩] = if u = t then rows else [] := by
  simp [handedOver, Noted.rowsFor]

@[simp] lemma handedOver_deletion (t u : Table) (slot : Slot) (accepted : Bool) :
    handedOver t [⟨.delete u slot, accepted⟩] = [] := rfl

@[simp] lemma deletionsOf_append (calls more : List Noted) :
    deletionsOf (calls ++ more) = deletionsOf calls ++ deletionsOf more := List.filterMap_append

@[simp] lemma deletionsIn_append (ms more : List Message) :
    deletionsIn (ms ++ more) = deletionsIn ms ++ deletionsIn more := List.filterMap_append

/-- The figures of a report are those of the calls that it counts. -/
lemma WriterReport.foldl_count (r : WriterReport) (calls : List Noted) :
    (calls.foldl count r).flushes = r.flushes + calls.countP Noted.isFlush ∧
      (calls.foldl count r).deletes = r.deletes + calls.countP Noted.isDeletion ∧
        (calls.foldl count r).rowsWritten + (calls.foldl count r).rowsLost
          = r.rowsWritten + r.rowsLost
            + (Table.all.map fun t => (handedOver t calls).length).sum := by
  induction calls generalizing r with
  | nil => simp
  | cons c calls ih =>
    obtain ⟨hf, hd, hr⟩ := ih (r.count c)
    have hcons (t : Table) :
        handedOver t (c :: calls) = Noted.rowsFor t c ++ handedOver t calls := rfl
    rw [List.foldl_cons, hf, hd, hr, List.countP_cons, List.countP_cons]
    simp only [hcons, List.length_append]
    obtain ⟨call, accepted⟩ := c
    cases call with
    | persist u rows =>
      refine ⟨?_, ?_, ?_⟩
      · cases accepted <;> simp [count, Noted.isFlush, Noted.deletion?]; omega
      · cases accepted <;> simp [count, Noted.isDeletion, Noted.deletion?]
      · cases accepted <;> cases u <;> simp [count, Noted.rowsFor, Table.all] <;> omega
    | delete u slot =>
      cases accepted <;>
        simp [count, Noted.isFlush, Noted.isDeletion, Noted.deletion?, Noted.rowsFor]; omega

/-- Every row message is about one table. -/
lemma sum_rowsIn (ms : List Message) :
    (Table.all.map fun t => (rowsIn t ms).length).sum = ms.countP Message.isRow := by
  induction ms with
  | nil => rfl
  | cons m ms ih =>
    rw [List.countP_cons, ← ih]
    cases m with
    | row r =>
      simp only [rowsIn_cons, List.length_append]
      cases r.table <;> simp [Message.isRow, Table.all] <;> omega
    | delete u slot => rfl

namespace Writer

variable {st : Store σ} {batchSize : Nat}

/-! ### Single moves -/

section Moves

variable {w : Writer σ} {t : Table}

lemma flush_nil (h : w.buffers.get t = []) : w.flush st t = w := by
  unfold flush
  rw [h]

/-- Rows leave the buffer with a call, and its answer is counted. -/
lemma flush_rows (h : w.buffers.get t ≠ []) :
    w.flush st t = ⟨(call (st.persist t (w.buffers.get t)) w.contents).1, w.buffers.set t [],
      w.report.count ⟨.persist t (w.buffers.get t),
        (call (st.persist t (w.buffers.get t)) w.contents).2⟩⟩ := by
  unfold flush
  cases hb : w.buffers.get t with
  | nil => exact absurd hb h
  | cons r rows =>
    dsimp only
    cases call (st.persist t (r :: rows)) w.contents with
    | mk s accepted => cases accepted <;> rfl

lemma deleteSlot_eq (w : Writer σ) (t : Table) (slot : Slot) :
    w.deleteSlot st t slot = ⟨(call (st.deleteSlot t slot) (w.flush st t).contents).1,
      (w.flush st t).buffers, (w.flush st t).report.count ⟨.delete t slot,
        (call (st.deleteSlot t slot) (w.flush st t).contents).2⟩⟩ := rfl

lemma get_flush (w : Writer σ) (t u : Table) :
    (w.flush st t).buffers.get u = if u = t then [] else w.buffers.get u := by
  by_cases h : w.buffers.get t = []
  · rw [flush_nil h]
    split
    · next hu => rw [hu, h]
    · rfl
  · rw [flush_rows h, PerTable.get_set]

end Moves

/-! ### Writers under observation -/

/-- What a writer is to those who do not see the notes. -/
def unobserved (w : Writer (σ × List Noted)) : Writer σ := ⟨w.contents.1, w.buffers, w.report⟩

lemma call_noting (c : StoreCall) (op : StoreOp σ Unit) (s : σ × List Noted) :
    call (Store.noting c op) s
      = (((call op s.1).1, s.2 ++ [⟨c, (call op s.1).2⟩]), (call op s.1).2) := by
  simp only [call, EStateM.run, Store.noting]
  cases op s.1 <;> rfl

lemma call_persist_audited (s : σ × List Noted) (t : Table) (rows : List Row) :
    call (st.audited.persist t rows) s = (((call (st.persist t rows) s.1).1,
      s.2 ++ [⟨.persist t rows, (call (st.persist t rows) s.1).2⟩]),
        (call (st.persist t rows) s.1).2) := call_noting _ _ s

lemma call_deleteSlot_audited (s : σ × List Noted) (t : Table) (slot : Slot) :
    call (st.audited.deleteSlot t slot) s = (((call (st.deleteSlot t slot) s.1).1,
      s.2 ++ [⟨.delete t slot, (call (st.deleteSlot t slot) s.1).2⟩]),
        (call (st.deleteSlot t slot) s.1).2) := call_noting _ _ s

section Unobserved

variable (w : Writer (σ × List Noted))

lemma unobserved_flush (t : Table) :
    (w.flush st.audited t).unobserved = w.unobserved.flush st t := by
  by_cases h : w.buffers.get t = []
  · have hplain : w.unobserved.buffers.get t = [] := h
    rw [flush_nil h, flush_nil hplain]
  · have hplain : w.unobserved.buffers.get t ≠ [] := h
    rw [flush_rows h, flush_rows hplain, call_persist_audited]
    rfl

lemma unobserved_deleteSlot (t : Table) (slot : Slot) :
    (w.deleteSlot st.audited t slot).unobserved = w.unobserved.deleteSlot st t slot := by
  rw [deleteSlot_eq, deleteSlot_eq, ← unobserved_flush, call_deleteSlot_audited]
  rfl

lemma unobserved_handle (m : Message) :
    (w.handle st.audited batchSize m).unobserved = w.unobserved.handle st batchSize m := by
  cases m with
  | row r =>
    simp only [handle, add]
    split
    · next h =>
      rw [unobserved_flush]
      exact (if_pos h).symm
    · next h => exact (if_neg h).symm
  | delete t slot => exact unobserved_deleteSlot w t slot

lemma unobserved_handle_all (ms : List Message) :
    (ms.foldl (handle st.audited batchSize) w).unobserved
      = ms.foldl (handle st batchSize) w.unobserved := by
  induction ms generalizing w with
  | nil => rfl
  | cons m ms ih => rw [List.foldl_cons, List.foldl_cons, ih, unobserved_handle]

lemma unobserved_flush_all (ts : List Table) :
    (ts.foldl (flush st.audited) w).unobserved = ts.foldl (flush st) w.unobserved := by
  induction ts generalizing w with
  | nil => rfl
  | cons t ts ih => rw [List.foldl_cons, List.foldl_cons, ih, unobserved_flush]

end Unobserved

/-! ### From state to state -/

/-- From `w` to `w'` a writer has received the messages and made the calls. -/
structure Course (batchSize : Nat) (w : Writer (σ × List Noted)) (ms : List Message)
    (calls : List Noted) (w' : Writer (σ × List Noted)) : Prop where
  noted : w'.contents.2 = w.contents.2 ++ calls
  rows : ∀ t, handedOver t calls ++ w'.buffers.get t = w.buffers.get t ++ rowsIn t ms
  deletions : deletionsOf calls = deletionsIn ms
  batches : ∀ t rows accepted, ⟨.persist t rows, accepted⟩ ∈ calls →
    rows ≠ [] ∧ rows.length ≤ max batchSize 1
  report : w'.report = calls.foldl .count w.report

lemma batch_pos (batchSize : Nat) : 0 < max batchSize 1 := by omega

/-- No buffer holds a full batch. -/
def Short (batchSize : Nat) (w : Writer σ) : Prop :=
  ∀ t, (w.buffers.get t).length < max batchSize 1

lemma short_flush (st : Store σ) {w : Writer σ} (h : Short batchSize w) (t : Table) :
    Short batchSize (w.flush st t) := by
  intro u
  rw [get_flush]
  split
  · exact batch_pos batchSize
  · exact h u

section Courses

variable {w w' w'' : Writer (σ × List Noted)} {ms ms' : List Message} {calls calls' : List Noted}

namespace Course

lemma refl (w : Writer (σ × List Noted)) : Course batchSize w [] [] w where
  noted := (List.append_nil _).symm
  rows t := (List.append_nil _).symm
  deletions := rfl
  batches t rows accepted h := by simp at h
  report := rfl

lemma trans (h : Course batchSize w ms calls w') (h' : Course batchSize w' ms' calls' w'') :
    Course batchSize w (ms ++ ms') (calls ++ calls') w'' where
  noted := by rw [h'.noted, h.noted, List.append_assoc]
  rows t := by
    rw [handedOver_append, List.append_assoc, h'.rows, ← List.append_assoc, h.rows, rowsIn_append,
      List.append_assoc]
  deletions := by rw [deletionsOf_append, deletionsIn_append, h.deletions, h'.deletions]
  batches t rows accepted hc := by
    rcases List.mem_append.1 hc with hc | hc
    · exact h.batches t rows accepted hc
    · exact h'.batches t rows accepted hc
  report := by rw [List.foldl_append, ← h.report, h'.report]

/-- A row that is collected is not handed over yet. -/
lemma collect (batchSize : Nat) (w : Writer (σ × List Noted)) (r : Row) :
    Course batchSize w [.row r] [] (w.collect r) where
  noted := (List.append_nil _).symm
  rows t := by
    rw [handedOver_nil, List.nil_append, rowsIn_cons, Writer.collect, PerTable.get_set]
    by_cases ht : t = r.table
    · simp [ht, rowsIn]
    · simp [ht, Ne.symm ht, rowsIn]
  deletions := rfl
  batches t rows accepted h := by simp at h
  report := rfl

/-- Handing over a buffer that is at most full. -/
lemma flush (st : Store σ) {t : Table} (h : (w.buffers.get t).length ≤ max batchSize 1) :
    ∃ calls, Course batchSize w [] calls (w.flush st.audited t) := by
  by_cases hb : w.buffers.get t = []
  · rw [flush_nil hb]
    exact ⟨[], .refl w⟩
  · rw [flush_rows hb, call_persist_audited]
    exact ⟨[⟨.persist t (w.buffers.get t), (call (st.persist t (w.buffers.get t)) w.contents.1).2⟩],
      { noted := rfl
        rows := fun u => by
          rw [handedOver_batch, PerTable.get_set]
          by_cases hu : u = t
          · simp [hu, rowsIn]
          · simp [hu, Ne.symm hu, rowsIn]
        deletions := rfl
        batches := fun u rows accepted hc => by
          simp only [List.mem_singleton, Noted.mk.injEq, StoreCall.persist.injEq] at hc
          obtain ⟨⟨-, rfl⟩, -⟩ := hc
          exact ⟨hb, h⟩
        report := rfl }⟩

/-- A deletion is one call, made when nothing is collected for its table. -/
lemma deleteSlot (st : Store σ) (batchSize : Nat) (w : Writer (σ × List Noted)) (t : Table)
    (slot : Slot) : ∃ accepted, Course batchSize (w.flush st.audited t) [.delete t slot]
      [⟨.delete t slot, accepted⟩] (w.deleteSlot st.audited t slot) := by
  rw [deleteSlot_eq, call_deleteSlot_audited]
  exact ⟨(call (st.deleteSlot t slot) (w.flush st.audited t).contents.1).2,
    { noted := rfl
      rows := fun u => by simp [rowsIn]
      deletions := rfl
      batches := fun u rows accepted hc => by simp at hc
      report := rfl }⟩

end Course

lemma get_collect (w : Writer σ) (r : Row) (t : Table) :
    (w.collect r).buffers.get t
      = if t = r.table then w.buffers.get r.table ++ [r] else w.buffers.get t :=
  PerTable.get_set _ _ _ _

/-- What a message leads to. A row makes its buffer a full batch at most, and a full batch is
handed over at once. -/
lemma course_handle (st : Store σ) (h : Short batchSize w) (m : Message) :
    ∃ calls, Course batchSize w [m] calls (w.handle st.audited batchSize m) ∧
      Short batchSize (w.handle st.audited batchSize m) := by
  cases m with
  | row r =>
    have hcollect := Course.collect batchSize w r
    have hbuffer := get_collect w r r.table
    rw [if_pos rfl] at hbuffer
    have hlength := h r.table
    show ∃ calls, Course batchSize w [.row r] calls
        (if batchSize ≤ (w.buffers.get r.table ++ [r]).length
          then (w.collect r).flush st.audited r.table else w.collect r) ∧
      Short batchSize (if batchSize ≤ (w.buffers.get r.table ++ [r]).length
          then (w.collect r).flush st.audited r.table else w.collect r)
    split
    · have hfull : ((w.collect r).buffers.get r.table).length ≤ max batchSize 1 := by
        rw [hbuffer, List.length_append, List.length_singleton]
        exact hlength
      obtain ⟨calls, hflush⟩ := Course.flush st hfull
      refine ⟨_, hcollect.trans hflush, fun t => ?_⟩
      rw [get_flush, get_collect]
      split
      · exact batch_pos batchSize
      · exact h t
    · next hsmall =>
      refine ⟨[], hcollect, fun t => ?_⟩
      rw [get_collect]
      split
      · omega
      · exact h t
  | delete t slot =>
    obtain ⟨calls, hflush⟩ := Course.flush st (Nat.le_of_lt (h t))
    obtain ⟨accepted, hdelete⟩ := Course.deleteSlot st batchSize w t slot
    exact ⟨_, hflush.trans hdelete, short_flush st.audited h t⟩

lemma course_handle_all (st : Store σ) (h : Short batchSize w) (ms : List Message) :
    ∃ calls, Course batchSize w ms calls (ms.foldl (handle st.audited batchSize) w) ∧
      Short batchSize (ms.foldl (handle st.audited batchSize) w) := by
  induction ms generalizing w with
  | nil => exact ⟨[], .refl w, h⟩
  | cons m ms ih =>
    obtain ⟨calls, hm, hw⟩ := course_handle st h m
    obtain ⟨more, hms, hlast⟩ := ih hw
    exact ⟨_, hm.trans hms, hlast⟩

/-- The last flushes leave nothing in the buffers of their tables. -/
lemma course_flush_all (st : Store σ) (h : Short batchSize w) (ts : List Table) :
    ∃ calls, Course batchSize w [] calls (ts.foldl (flush st.audited) w) ∧
      ∀ t, t ∈ ts ∨ w.buffers.get t = [] → (ts.foldl (flush st.audited) w).buffers.get t = [] := by
  induction ts generalizing w with
  | nil => exact ⟨[], .refl w, fun t ht => by simpa using ht⟩
  | cons u ts ih =>
    obtain ⟨calls, hflush⟩ := Course.flush st (Nat.le_of_lt (h u))
    obtain ⟨more, hrest, hempty⟩ := ih (short_flush st.audited h u)
    refine ⟨_, hflush.trans hrest, fun t ht => hempty t ?_⟩
    rw [get_flush]
    by_cases hu : t = u
    · exact .inr (if_pos hu)
    · rw [if_neg hu]
      simpa [hu] using ht

end Courses

/-! ### Whole runs -/

lemma short_start (batchSize : Nat) (contents : σ) : Short batchSize (start contents) := by
  intro t
  rw [start, PerTable.get_fill]
  exact batch_pos batchSize

/-- A writer after all messages and a last flush of the tables. -/
def through (st : Store σ) (batchSize : Nat) (contents : σ) (ms : List Message)
    (last : List Table) : Writer σ :=
  last.foldl (flush st) (ms.foldl (handle st batchSize) (start contents))

lemma run_eq_through (st : Store σ) (batchSize : Nat) (contents : σ) (ms : List Message) :
    run st batchSize contents ms = through st batchSize contents ms Table.all := rfl

section Runs

variable (st) (batchSize) (contents : σ) {last : List Table}

lemma unobserved_through (last : List Table) (ms : List Message) :
    (through st.audited batchSize (contents, []) ms last).unobserved
      = through st batchSize contents ms last := by
  rw [through, unobserved_flush_all, unobserved_handle_all]
  rfl

lemma course_through (hlast : ∀ t, t ∈ last) (ms : List Message) :
    ∃ calls, Course batchSize (start (contents, [])) ms calls
        (through st.audited batchSize (contents, []) ms last) ∧
      ∀ t, (through st.audited batchSize (contents, []) ms last).buffers.get t = [] := by
  obtain ⟨calls, hms, hshort⟩ := course_handle_all st (short_start batchSize (contents, [])) ms
  obtain ⟨more, hflush, hempty⟩ := course_flush_all st hshort last
  have hall := hms.trans hflush
  rw [List.append_nil] at hall
  exact ⟨_, hall, fun t => hempty t (.inl (hlast t))⟩

/-- A deletion in its place among the calls. -/
lemma placed_through (hlast : ∀ t, t ∈ last) (before : List Message) (t : Table) (slot : Slot)
    (after : List Message) :
    ∃ front accepted back,
      (through st.audited batchSize (contents, [])
          (before ++ .delete t slot :: after) last).contents.2
          = front ++ ⟨.delete t slot, accepted⟩ :: back ∧
        deletionsOf front = deletionsIn before ∧ handedOver t front = rowsIn t before ∧
          deletionsOf back = deletionsIn after ∧ handedOver t back = rowsIn t after := by
  obtain ⟨calls, hbefore, hshort⟩ :=
    course_handle_all st (short_start batchSize (contents, [])) before
  generalize hw : before.foldl (handle st.audited batchSize) (start (contents, [])) = w
    at hbefore hshort
  obtain ⟨flushed, hflush⟩ := Course.flush st (Nat.le_of_lt (hshort t))
  obtain ⟨accepted, hdelete⟩ := Course.deleteSlot st batchSize w t slot
  obtain ⟨more, hafter, hshort'⟩ := course_handle_all st
    (show Short batchSize (w.deleteSlot st.audited t slot) from short_flush st.audited hshort t)
    after
  obtain ⟨rest, hend, hempty⟩ := course_flush_all st hshort' last
  have hrun : last.foldl (flush st.audited)
        (after.foldl (handle st.audited batchSize) (w.deleteSlot st.audited t slot))
      = through st.audited batchSize (contents, []) (before ++ .delete t slot :: after) last := by
    rw [through, List.foldl_append, hw]
    rfl
  rw [hrun] at hend hempty
  have hfront := hbefore.trans hflush
  have hback := hafter.trans hend
  rw [List.append_nil] at hfront hback
  have hnone : (w.flush st.audited t).buffers.get t = [] := by rw [get_flush, if_pos rfl]
  refine ⟨calls ++ flushed, accepted, more ++ rest, ?_, hfront.deletions, ?_, hback.deletions, ?_⟩
  · rw [hback.noted, hdelete.noted, hfront.noted]
    simp [start]
  · have hrows := hfront.rows t
    rw [hnone, List.append_nil] at hrows
    simpa [start] using hrows
  · have hrows := hback.rows t
    rw [hempty t (.inl (hlast t)), List.append_nil] at hrows
    rw [hrows, deleteSlot_eq]
    dsimp only
    rw [hnone, List.nil_append]

end Runs

/-- What the calls of a writer, each with its answer, have to do with the messages. -/
structure HandsOver (batchSize : Nat) (ms : List Message) (calls : List Noted)
    (report : WriterReport) : Prop where
  /-- every row is handed over once, in the order of the messages -/
  rows : ∀ t, handedOver t calls = rowsIn t ms
  batches : ∀ t rows accepted, ⟨.persist t rows, accepted⟩ ∈ calls →
    rows ≠ [] ∧ rows.length ≤ max batchSize 1
  deletions : deletionsOf calls = deletionsIn ms
  /-- the call of a deletion stands between the rows of its table before it and those after it,
  and as many deletions come before it -/
  placed : ∀ before t slot after, ms = before ++ .delete t slot :: after →
    ∃ front accepted back, calls = front ++ ⟨.delete t slot, accepted⟩ :: back ∧
      deletionsOf front = deletionsIn before ∧ handedOver t front = rowsIn t before ∧
        deletionsOf back = deletionsIn after ∧ handedOver t back = rowsIn t after
  counted : report.rowsWritten + report.rowsLost = ms.countP Message.isRow
  flushes : report.flushes = calls.countP Noted.isFlush
  deletes : report.deletes = calls.countP Noted.isDeletion

/-- **Every row is handed over exactly once, whatever the store answers.** After any messages and
a last flush of all tables in any order, the calls to the store carry the rows of each table one
after another as the messages do, refused calls included, in batches that are neither empty nor
larger than the size of a batch. Each deletion is one call, after all rows of its table that were
before it and before all that were after it. The report counts every row message once, the
accepted batches and the accepted deletions. To take the notes changes nothing. -/
theorem hands_over_once (st : Store σ) (batchSize : Nat) (contents : σ) (ms : List Message)
    {last : List Table} (hlast : ∀ t, t ∈ last) :
    (through st.audited batchSize (contents, []) ms last).unobserved
        = through st batchSize contents ms last ∧
      HandsOver batchSize ms (through st.audited batchSize (contents, []) ms last).contents.2
        (through st batchSize contents ms last).report := by
  obtain ⟨calls, hcourse, hempty⟩ := course_through st batchSize contents hlast ms
  have hsame := unobserved_through st batchSize contents last ms
  have hnoted : (through st.audited batchSize (contents, []) ms last).contents.2 = calls :=
    hcourse.noted
  have hreport : (through st batchSize contents ms last).report = calls.foldl .count .zero := by
    rw [← hsame]
    exact hcourse.report
  have hrows (t : Table) : handedOver t calls = rowsIn t ms := by
    have h := hcourse.rows t
    rw [hempty t, List.append_nil] at h
    simpa [start] using h
  obtain ⟨hflushes, hdeletes, hcounted⟩ := WriterReport.foldl_count .zero calls
  refine ⟨hsame, ?_⟩
  rw [hnoted, hreport]
  exact
    { rows := hrows
      batches := hcourse.batches
      deletions := hcourse.deletions
      placed := fun before t slot after hms => by
        rw [← hnoted, hms]
        exact placed_through st batchSize contents hlast before t slot after
      counted := by
        simp only [hrows, sum_rowsIn] at hcounted
        simpa [WriterReport.zero] using hcounted
      flushes := by simpa [WriterReport.zero] using hflushes
      deletes := by simpa [WriterReport.zero] using hdeletes }

/-- Over a store that refuses all rows of a table, a deletion between them is carried out, and all
rows are handed over in two batches and lost. -/
theorem run_hands_over_refused :
    let st := MemoryStore.store.refusing fun c =>
      c.table == .proposerDuties && c != .delete c.table 3
    let ms : List Message := [.row (.duty ⟨5, 3, true⟩), .row (.duty ⟨6, 4, true⟩),
      .delete .proposerDuties 3, .row (.duty ⟨7, 3, false⟩)]
    (∀ t, t ∈ Table.all) ∧
      (run st.audited 2 (.empty, []) ms).contents.2.map Noted.accepted = [false, true, false] ∧
      handedOver .proposerDuties (run st.audited 2 (.empty, []) ms).contents.2
        = [.duty ⟨5, 3, true⟩, .duty ⟨6, 4, true⟩, .duty ⟨7, 3, false⟩] ∧
      (run st 2 .empty ms).report = ⟨0, 3, 0, 1⟩ := by
  intro st ms
  have hall : ∀ t, t ∈ Table.all := by
    intro t
    cases t <;> decide
  obtain ⟨-, hands⟩ := hands_over_once st 2 .empty ms hall
  refine ⟨hall, by decide, ?_, by decide⟩
  rw [run_eq_through, hands.rows]
  rfl

end Writer

end EpochRewards
