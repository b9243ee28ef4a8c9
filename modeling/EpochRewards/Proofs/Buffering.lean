import EpochRewards.Store.Memory
import EpochRewards.Writer
import Mathlib.Algebra.Ring.Nat
import Mathlib.Data.List.Basic
import Mathlib.Tactic.Common

/-!
Writing through buffers.

What a table shows is what the store holds of it, followed by what is collected for it. Every
message changes what the tables show as it would without buffers, and handing rows over changes
nothing of it, so no order of messages tells a buffering writer from a direct one.
-/

namespace EpochRewards

namespace PerTable

variable {β : Type}

lemma ext_get {p q : PerTable β} (h : ∀ t, p.get t = q.get t) : p = q := by
  cases p
  cases q
  simp only [mk.injEq]
  exact ⟨h .validatorRewards, h .epochSummary, h .proposerDuties, h .blocks, h .attestations,
    h .withdrawals⟩

end PerTable

/-! ### Messages -/

namespace Message

/-- What a message makes of the rows of a table. -/
def effect (t : Table) (rows : List Row) : Message → List Row
  | .row r => if r.table = t then rows ++ [r] else rows
  | .delete u slot => if u = t then rows.filter (·.slot != slot) else rows

def isRow : Message → Bool
  | .row _ => true
  | .delete .. => false

def isDelete : Message → Bool
  | .row _ => false
  | .delete .. => true

end Message

namespace MemoryStore

/-- A message carried out at once. -/
def carryOut (s : MemoryStore) : Message → MemoryStore
  | .row r => { s with tables := s.tables.set r.table (s.rows r.table ++ [r]) }
  | .delete t slot => { s with tables := s.tables.set t ((s.rows t).filter (·.slot != slot)) }

lemma rows_carryOut (s : MemoryStore) (m : Message) (t : Table) :
    (s.carryOut m).rows t = m.effect t (s.rows t) := by
  cases m with
  | row r =>
    simp only [carryOut, rows, PerTable.get_set, Message.effect, eq_comm (a := t)]
    split
    · next h => rw [h]
    · rfl
  | delete u slot =>
    simp only [carryOut, rows, PerTable.get_set, Message.effect, eq_comm (a := t)]
    split
    · next h => rw [h]
    · rfl

lemma closed_carryOut (s : MemoryStore) (m : Message) : (s.carryOut m).closed = s.closed := by
  cases m <;> rfl

lemma rows_carryOut_all (s : MemoryStore) (ms : List Message) (t : Table) :
    (ms.foldl carryOut s).rows t = ms.foldl (Message.effect t) (s.rows t) := by
  induction ms generalizing s with
  | nil => rfl
  | cons m ms ih => rw [List.foldl_cons, List.foldl_cons, ih, rows_carryOut]

lemma closed_carryOut_all (s : MemoryStore) (ms : List Message) :
    (ms.foldl carryOut s).closed = s.closed := by
  induction ms generalizing s with
  | nil => rfl
  | cons m ms ih => rw [List.foldl_cons, ih, closed_carryOut]

lemma ext_rows {s u : MemoryStore} (hc : s.closed = u.closed) (h : ∀ t, s.rows t = u.rows t) :
    s = u := by
  cases s
  cases u
  simp only [mk.injEq]
  exact ⟨PerTable.ext_get h, hc⟩

/-! ### Calls to an open store -/

lemma call_persist {s : MemoryStore} {t : Table} {rows : List Row} (hs : s.closed = false)
    (hr : ∀ r ∈ rows, r.table = t) :
    Writer.call (store.persist t rows) s
      = ({ s with tables := s.tables.set t (s.rows t ++ rows) }, true) := by
  have hn : rows.find? (·.table != t) = none := by
    simpa [List.find?_eq_none] using hr
  have ha : Store.accepts s.closed t rows = .ok () := by
    simp [Store.accepts, hs, hn]
  have hp : (persist t rows) s = .ok () { s with tables := s.tables.set t (s.rows t ++ rows) } := by
    show EStateM.bind (liftM (Store.accepts s.closed t rows))
      (fun _ => setRows t (s.rows t ++ rows)) s = _
    rw [ha]
    rfl
  simp only [Writer.call, EStateM.run, store, hp]

lemma call_deleteSlot {s : MemoryStore} (hs : s.closed = false) (t : Table) (slot : Slot) :
    Writer.call (store.deleteSlot t slot) s
      = ({ s with tables := s.tables.set t ((s.rows t).filter (·.slot != slot)) }, true) := by
  have ha : Store.accepts s.closed t [] = .ok () := by
    simp [Store.accepts, hs]
  have hd : (deleteSlot t slot) s
      = .ok () { s with tables := s.tables.set t ((s.rows t).filter (·.slot != slot)) } := by
    show EStateM.bind (liftM (Store.accepts s.closed t []))
      (fun _ => setRows t ((s.rows t).filter (·.slot != slot))) s = _
    rw [ha]
    rfl
  simp only [Writer.call, EStateM.run, store, hd]

end MemoryStore

namespace Writer

open MemoryStore (carryOut store)

/-! ### What a table shows -/

/-- The rows of a table that are stored or collected. -/
def shown (w : Writer MemoryStore) (t : Table) : List Row :=
  w.contents.rows t ++ w.buffers.get t

/-- The number of rows that are collected. -/
def pending (w : Writer MemoryStore) : Nat :=
  (Table.all.map fun t => (w.buffers.get t).length).sum

/-- The writer over an open store shows the tables of `s`, has lost nothing and has counted
`rows` rows and `deletes` deletions. -/
structure Faithful (s : MemoryStore) (rows deletes : Nat) (w : Writer MemoryStore) : Prop where
  isOpen : w.contents.closed = s.closed
  sorted : ∀ t, ∀ r ∈ w.buffers.get t, r.table = t
  shown : ∀ t, w.shown t = s.rows t
  counted : w.report.rowsWritten + w.pending = rows
  lost : w.report.rowsLost = 0
  deleted : w.report.deletes = deletes

lemma length_buffers_set (p : PerTable (List Row)) (t : Table) (rows : List Row) :
    (Table.all.map fun u => ((p.set t rows).get u).length).sum + (p.get t).length
      = (Table.all.map fun u => (p.get u).length).sum + rows.length := by
  cases t <;> simp [Table.all, PerTable.set, PerTable.get] <;> omega

variable {s : MemoryStore} {rows deletes : Nat} {w : Writer MemoryStore}

lemma faithful_start : Faithful s 0 0 (start s) where
  isOpen := rfl
  sorted t r hr := by simp [start] at hr
  shown t := by simp [Writer.shown, start]
  counted := by simp [start, pending, Table.all, WriterReport.zero]
  lost := rfl
  deleted := rfl

/-- Handing rows over empties the buffer of the table and leaves what is shown as it is. -/
lemma flush_spec (hs : s.closed = false) (h : Faithful s rows deletes w) (t : Table) :
    Faithful s rows deletes (w.flush store t) ∧
      (w.flush store t).buffers = w.buffers.set t [] := by
  obtain ⟨ho, hb, hv, hc, hl, hd⟩ := h
  cases hg : w.buffers.get t with
  | nil =>
    have hw : w.flush store t = w := by simp [flush, hg]
    rw [hw]
    refine ⟨⟨ho, hb, hv, hc, hl, hd⟩, PerTable.ext_get fun u => ?_⟩
    by_cases hu : u = t
    · simp [hu, hg]
    · simp [hu]
  | cons r rest =>
    have hp := MemoryStore.call_persist (ho.trans hs) (by
      rw [← hg]; exact hb t : ∀ x ∈ r :: rest, x.table = t)
    have hw : w.flush store t =
        ⟨{ w.contents with
            tables := w.contents.tables.set t (w.contents.rows t ++ r :: rest) },
          w.buffers.set t [],
          { w.report with
            rowsWritten := w.report.rowsWritten + (r :: rest).length
            flushes := w.report.flushes + 1 }⟩ := by
      simp only [flush, hg, hp, if_true]
    rw [hw]
    refine ⟨⟨ho, ?_, ?_, ?_, hl, hd⟩, rfl⟩
    · intro u x hx
      by_cases hu : u = t
      · simp [hu] at hx
      · exact hb u x (by simpa [hu] using hx)
    · intro u
      rw [← hv u]
      by_cases hu : u = t
      · simp [Writer.shown, MemoryStore.rows, hu, hg]
      · simp [Writer.shown, MemoryStore.rows, hu]
    · have hset := length_buffers_set w.buffers t []
      rw [hg] at hset
      simp only [pending] at hc ⊢
      simp only [List.length_nil] at hset
      omega

/-- A row put into the buffer of its table. -/
def collect {σ : Type} (w : Writer σ) (r : Row) : Writer σ :=
  { w with buffers := w.buffers.set r.table (w.buffers.get r.table ++ [r]) }

lemma faithful_collect (h : Faithful s rows deletes w) (r : Row) :
    Faithful (s.carryOut (.row r)) (rows + 1) deletes (w.collect r) := by
  obtain ⟨ho, hb, hv, hc, hl, hd⟩ := h
  refine ⟨ho, ?_, ?_, ?_, hl, hd⟩
  · intro t x hx
    by_cases ht : t = r.table
    · subst ht
      rw [collect, PerTable.get_set, if_pos rfl, List.mem_append, List.mem_singleton] at hx
      rcases hx with hx | rfl
      · exact hb _ x hx
      · rfl
    · exact hb t x (by simpa [collect, ht] using hx)
  · intro t
    rw [MemoryStore.rows_carryOut, ← hv t]
    by_cases ht : t = r.table
    · subst ht
      simp [collect, shown, Message.effect]
    · simp [collect, shown, Message.effect, ht, Ne.symm ht]
  · have hset := length_buffers_set w.buffers r.table (w.buffers.get r.table ++ [r])
    simp only [List.length_append, List.length_singleton] at hset
    simp only [collect, pending] at hc ⊢
    omega

lemma faithful_add (batchSize : Nat) (hs : s.closed = false) (h : Faithful s rows deletes w)
    (r : Row) :
    Faithful (s.carryOut (.row r)) (rows + 1) deletes (w.add store batchSize r) := by
  have hf := faithful_collect h r
  show Faithful _ _ _
    (if batchSize ≤ (w.buffers.get r.table ++ [r]).length then (w.collect r).flush store r.table
      else w.collect r)
  split
  · exact (flush_spec ((MemoryStore.closed_carryOut s _).trans hs) hf r.table).1
  · exact hf

lemma faithful_deleteSlot (hs : s.closed = false) (h : Faithful s rows deletes w) (t : Table)
    (slot : Slot) :
    Faithful (s.carryOut (.delete t slot)) rows (deletes + 1) (w.deleteSlot store t slot) := by
  obtain ⟨⟨ho, hb, hv, hc, hl, hd⟩, he⟩ := flush_spec hs h t
  have hp := MemoryStore.call_deleteSlot (ho.trans hs) t slot
  have hw : w.deleteSlot store t slot =
      { w.flush store t with
        contents := { (w.flush store t).contents with
          tables := (w.flush store t).contents.tables.set t
            (((w.flush store t).contents.rows t).filter (·.slot != slot)) }
        report := { (w.flush store t).report with
          deletes := (w.flush store t).report.deletes + 1 } } := by
    simp only [deleteSlot, hp, Bool.toNat_true]
  rw [hw]
  refine ⟨ho, hb, ?_, hc, hl, by rw [hd]⟩
  intro x
  rw [MemoryStore.rows_carryOut, ← hv x]
  by_cases hx : x = t
  · simp [shown, MemoryStore.rows, Message.effect, hx, he]
  · simp [shown, MemoryStore.rows, Message.effect, hx, Ne.symm hx]

/-- One message changes what is shown as it would without buffers. -/
lemma faithful_handle (batchSize : Nat) (hs : s.closed = false) (h : Faithful s rows deletes w)
    (m : Message) :
    Faithful (s.carryOut m) (rows + m.isRow.toNat) (deletes + m.isDelete.toNat)
      (w.handle store batchSize m) := by
  cases m with
  | row r => exact faithful_add batchSize hs h r
  | delete t slot => exact faithful_deleteSlot hs h t slot

lemma faithful_handle_all (batchSize : Nat) (hs : s.closed = false)
    (h : Faithful s rows deletes w) (ms : List Message) :
    Faithful (ms.foldl carryOut s) (rows + ms.countP Message.isRow)
      (deletes + ms.countP Message.isDelete) (ms.foldl (handle store batchSize) w) := by
  induction ms generalizing s rows deletes w with
  | nil => exact h
  | cons m ms ih =>
    have := ih ((MemoryStore.closed_carryOut s m).trans hs)
      (faithful_handle batchSize hs h m)
    have hr : rows + m.isRow.toNat + ms.countP Message.isRow
        = rows + (m :: ms).countP Message.isRow := by
      cases m with
      | row r => simp [Message.isRow, List.countP_cons]; omega
      | delete t slot => simp [Message.isRow]
    have hd : deletes + m.isDelete.toNat + ms.countP Message.isDelete
        = deletes + (m :: ms).countP Message.isDelete := by
      cases m with
      | row r => simp [Message.isDelete]
      | delete t slot => simp [Message.isDelete, List.countP_cons]; omega
    rw [hr, hd] at this
    exact this

/-! ### The last flush -/

lemma faithful_flush_all (hs : s.closed = false) (h : Faithful s rows deletes w)
    (ts : List Table) : Faithful s rows deletes (ts.foldl (flush store) w) := by
  induction ts generalizing w with
  | nil => exact h
  | cons t ts ih => exact ih (flush_spec hs h t).1

lemma buffers_flush_all (hs : s.closed = false) (h : Faithful s rows deletes w)
    {ts : List Table} {t : Table} (ht : w.buffers.get t = [] ∨ t ∈ ts) :
    (ts.foldl (flush store) w).buffers.get t = [] := by
  induction ts generalizing w with
  | nil => simpa using ht
  | cons u ts ih =>
    obtain ⟨hf, hb⟩ := flush_spec hs h u
    refine ih hf ?_
    by_cases hu : t = u
    · exact .inl (by simp [hb, hu])
    · exact ht.imp (by simp [hb, hu]) fun hm => by simpa [hu] using hm

/-- After the last flush the store itself is what was shown. -/
lemma finish_faithful (hs : s.closed = false) (h : Faithful s rows deletes w) :
    (w.finish store).contents = s ∧ (w.finish store).report.rowsWritten = rows ∧
      (w.finish store).report.rowsLost = 0 ∧ (w.finish store).report.deletes = deletes := by
  have hf : Faithful s rows deletes (w.finish store) := faithful_flush_all hs h Table.all
  have hb : ∀ t, (w.finish store).buffers.get t = [] := fun t =>
    buffers_flush_all hs h (.inr (by cases t <;> simp [Table.all]))
  obtain ⟨ho, -, hv, hc, hl, hd⟩ := hf
  refine ⟨MemoryStore.ext_rows ho fun t => ?_, ?_, hl, hd⟩
  · rw [← hv t, shown, hb t, List.append_nil]
  · rw [← hc]
    simp [pending, hb]

/-- **Buffering is invisible.** Whatever the batch size and the order of the messages, the store
ends as if each message had been carried out at once, nothing is lost, and every row and every
deletion is counted. -/
theorem run_eq_unbuffered (batchSize : Nat) (s : MemoryStore) (hs : s.closed = false)
    (ms : List Message) :
    (run store batchSize s ms).contents = ms.foldl carryOut s ∧
      (run store batchSize s ms).report.rowsWritten = ms.countP Message.isRow ∧
      (run store batchSize s ms).report.rowsLost = 0 ∧
      (run store batchSize s ms).report.deletes = ms.countP Message.isDelete := by
  have h := faithful_handle_all batchSize hs (faithful_start (s := s)) ms
  simp only [Nat.zero_add] at h
  exact finish_faithful ((MemoryStore.closed_carryOut_all s ms).trans hs) h

/-- A deletion takes the rows of its slot that are still collected, not the ones that follow. -/
theorem run_delete_between_rows :
    MemoryStore.empty.closed = false ∧
      (run store 100 .empty
        [.row (.duty ⟨5, 3, true⟩), .row (.duty ⟨6, 4, true⟩), .delete .proposerDuties 3,
          .row (.duty ⟨7, 3, false⟩)]).contents.rows .proposerDuties
        = [.duty ⟨6, 4, true⟩, .duty ⟨7, 3, false⟩] := by
  refine ⟨rfl, ?_⟩
  rw [(run_eq_unbuffered 100 .empty rfl _).1]
  rfl

end Writer

end EpochRewards
