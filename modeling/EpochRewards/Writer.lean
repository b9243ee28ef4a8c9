import EpochRewards.PerTable
import EpochRewards.Store

/-!
The writer: rows are collected per table and handed to a store in batches.

A deletion first hands over what is collected for its table, so that rows before it are
deleted and rows after it are not. Rows that the store refuses are lost.
-/

namespace EpochRewards

inductive Message where
  | row (r : Row)
  | delete (t : Table) (slot : Slot)
  deriving DecidableEq

structure WriterReport where
  rowsWritten : Nat
  rowsLost : Nat
  flushes : Nat
  deletes : Nat
  deriving DecidableEq

def WriterReport.zero : WriterReport := ⟨0, 0, 0, 0⟩

structure Writer (σ : Type) where
  contents : σ
  buffers : PerTable (List Row)
  report : WriterReport

namespace Writer

variable {σ : Type}

def start (contents : σ) : Writer σ := ⟨contents, .fill [], .zero⟩

/-- A call to the store, its new contents and whether it succeeded. -/
def call (op : StoreOp σ Unit) (contents : σ) : σ × Bool :=
  match op.run contents with
  | .ok _ contents => (contents, true)
  | .error _ contents => (contents, false)

/-- Hands the rows collected for a table over. -/
def flush (st : Store σ) (w : Writer σ) (t : Table) : Writer σ :=
  match w.buffers.get t with
  | [] => w
  | rows =>
    let (contents, accepted) := call (st.persist t rows) w.contents
    let r := w.report
    { contents
      buffers := w.buffers.set t []
      report :=
        if accepted then
          { r with rowsWritten := r.rowsWritten + rows.length, flushes := r.flushes + 1 }
        else { r with rowsLost := r.rowsLost + rows.length } }

/-- Collects a row; a batch is handed over when it is full. -/
def add (st : Store σ) (batchSize : Nat) (w : Writer σ) (r : Row) : Writer σ :=
  let t := r.table
  let rows := w.buffers.get t ++ [r]
  let w := { w with buffers := w.buffers.set t rows }
  if batchSize ≤ rows.length then w.flush st t else w

def deleteSlot (st : Store σ) (w : Writer σ) (t : Table) (slot : Slot) : Writer σ :=
  let w := w.flush st t
  let (contents, accepted) := call (st.deleteSlot t slot) w.contents
  let deletes := w.report.deletes + accepted.toNat
  { w with contents, report := { w.report with deletes } }

def handle (st : Store σ) (batchSize : Nat) (w : Writer σ) : Message → Writer σ
  | .row r => w.add st batchSize r
  | .delete t slot => w.deleteSlot st t slot

/-- Hands over what is left in the buffers. -/
def finish (st : Store σ) (w : Writer σ) : Writer σ := Table.all.foldl (flush st) w

/-- The writer after a list of messages and the last flush. -/
def run (st : Store σ) (batchSize : Nat) (contents : σ) (messages : List Message) : Writer σ :=
  (messages.foldl (handle st batchSize) (start contents)).finish st

end Writer

end EpochRewards
