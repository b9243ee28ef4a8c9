import EpochRewards.PerTable
import EpochRewards.Store

/-!
Stores that hold their tables in memory.
-/

namespace EpochRewards

structure MemoryStore where
  tables : PerTable (List Row)
  closed : Bool
  deriving DecidableEq

namespace MemoryStore

def empty : MemoryStore := ⟨.fill [], false⟩

def rows (s : MemoryStore) (t : Table) : List Row := s.tables.get t

def setRows (t : Table) (rows : List Row) : StoreOp MemoryStore Unit :=
  modify fun s => { s with tables := s.tables.set t rows }

def persist (t : Table) (rows : List Row) : StoreOp MemoryStore Unit := do
  let s ← get
  Store.accepts s.closed t rows
  setRows t (s.rows t ++ rows)

def deleteSlot (t : Table) (slot : Slot) : StoreOp MemoryStore Unit := do
  let s ← get
  Store.accepts s.closed t []
  setRows t ((s.rows t).filter (·.slot != slot))

def close : StoreOp MemoryStore Unit := do
  let s ← get
  if s.closed then throw .closed else set { s with closed := true }

def store : Store MemoryStore :=
  { persist, deleteSlot, close, rows := fun s t => .ok (s.rows t), isClosed := (·.closed) }

end MemoryStore

end EpochRewards
