import EpochRewards.Store

/-!
Stores under observation: one that notes every call made to it and one that refuses some.
-/

namespace EpochRewards

inductive StoreCall where
  | persist (t : Table) (rows : List Row)
  | delete (t : Table) (slot : Slot)
  deriving DecidableEq

def StoreCall.table : StoreCall → Table
  | persist t _ => t
  | delete t _ => t

namespace Store

variable {σ : Type}

/-- An operation on the contents of a store that is kept together with something else. -/
def beside {τ : Type} (op : StoreOp σ Unit) : StoreOp (σ × τ) Unit := fun (s, c) =>
  match op.run s with
  | .ok _ s => .ok () (s, c)
  | .error e s => .error e (s, c)

def note (call : StoreCall) : StoreOp (σ × List StoreCall) Unit :=
  modify fun (s, calls) => (s, calls ++ [call])

/-- Notes the calls that come with rows or slots, whether they succeed or not. -/
def journal (st : Store σ) : Store (σ × List StoreCall) where
  persist t rows := do
    note (.persist t rows)
    beside (st.persist t rows)
  deleteSlot t slot := do
    note (.delete t slot)
    beside (st.deleteSlot t slot)
  close := beside st.close
  rows s t := st.rows s.1 t
  isClosed s := st.isClosed s.1

/-- Refuses calls as a closed store does. -/
def refusing (refused : StoreCall → Bool) (st : Store σ) : Store σ :=
  { st with
    persist := fun t rows =>
      if refused (.persist t rows) then throw .closed else st.persist t rows
    deleteSlot := fun t slot =>
      if refused (.delete t slot) then throw .closed else st.deleteSlot t slot }

end Store

end EpochRewards
