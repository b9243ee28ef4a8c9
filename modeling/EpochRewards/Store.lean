import EpochRewards.Row

/-!
Stores of rows.

`Store σ` is what the rest of the program asks of a store with contents `σ`. An operation that
fails says why; what it leaves behind is up to the store.
-/

namespace EpochRewards

inductive StoreError where
  | closed
  | tableMismatch (table actual : Table)
  /-- a table holds a line that is no row of it -/
  | unreadable (table : Table)
  /-- the file of a table cannot be read or written -/
  | inaccessible (table : Table)
  deriving DecidableEq

def StoreError.message : StoreError → String
  | closed => "database is closed"
  | tableMismatch table actual =>
    "row belongs to " ++ actual.name ++ " and cannot be stored in " ++ table.name
  | unreadable table => "table " ++ table.name ++ " cannot be read"
  | inaccessible table => "the file of table " ++ table.name ++ " cannot be used"

abbrev StoreOp (σ : Type) := EStateM StoreError σ

structure Store (σ : Type) where
  /-- adds rows at the end of a table -/
  persist : Table → List Row → StoreOp σ Unit
  /-- removes the rows of a table that belong to a slot -/
  deleteSlot : Table → Slot → StoreOp σ Unit
  close : StoreOp σ Unit
  /-- the rows of a table in the order in which they were added, closed or not -/
  rows : σ → Table → Except StoreError (List Row)
  isClosed : σ → Bool

namespace Store

/-- A store accepts calls until it is closed, and rows only in their own table. -/
def accepts (closed : Bool) (t : Table) (rows : List Row) : Except StoreError Unit :=
  if closed then .error .closed
  else
    match rows.find? (·.table != t) with
    | some row => .error (.tableMismatch t row.table)
    | none => .ok ()

end Store

end EpochRewards
