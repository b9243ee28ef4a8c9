import EpochRewards.FileSystem
import EpochRewards.Json.Writer
import EpochRewards.Row.Format
import EpochRewards.Store

/-!
Stores that keep each table in a file of a folder, one row per line.
-/

namespace EpochRewards

structure FileStore where
  system : FileSystem
  /-- the path of the folder that the files are in -/
  directory : Path
  closed : Bool
  deriving DecidableEq

namespace FileStore

/-- Opens the store in the folder at a path. -/
def openAt (fs : FileSystem) (p : Path) : Except PathError FileStore :=
  if fs.isFolder p then .ok ⟨fs, p, false⟩ else .error .notFolder

/-- The store in a folder that holds nodes of the given names. -/
def ofNodes (nodes : List (String × Node)) : FileStore :=
  let folder := ["tables"]
  ⟨⟨(folder, .folder) :: nodes.map fun (name, n) => (folder ++ [name], n), folder⟩, .here, false⟩

def empty : FileStore := ofNodes []

/-- The names and texts of the files in the folder. -/
def files (s : FileStore) : List (String × String) :=
  match s.system.locate s.directory with
  | .ok l => s.system.files l
  | .error _ => []

def fileName (t : Table) : String := t.name ++ ".jsonl"

/-- Where a table is written before it takes the place of its file. -/
def draftName (t : Table) : String := fileName t ++ ".tmp"

/-! ### Lines -/

def dropReturn : List Char → List Char
  | '\r' :: cs => cs
  | cs => cs

/-- The lines of a text. A line feed ends a line, together with a carriage return before it.
The second argument holds the characters of the current line, last one first. -/
def lines : List Char → List Char → List (List Char)
  | [], [] => []
  | [], line => [line.reverse]
  | c :: cs, line =>
    if c = '\n' then (dropReturn line).reverse :: lines cs [] else lines cs (c :: line)

def renderRow (row : Row) : List Char := row.encode.render ++ ['\n']

def render (rows : List Row) : String := String.ofList (rows.flatMap renderRow)

def parseRow (t : Table) (line : List Char) : Option Row :=
  Json.parseChars line >>= Row.decodeAs t

/-- The rows of a table's text, in which empty lines are skipped. -/
def parse (t : Table) (text : String) : Except StoreError (List Row) :=
  match ((lines text.toList []).filter (!·.isEmpty)).mapM (parseRow t) with
  | some rows => .ok rows
  | none => .error (.unreadable t)

/-! ### Operations -/

def place (s : FileStore) (name : String) : Path := s.directory.join ⟨false, [name]⟩

/-- Access to the file of a table. -/
def access {α : Type} (t : Table) (x : Except PathError α) : Except StoreError α :=
  x.mapError fun _ => .inaccessible t

/-- The text of a table, if it has a file. -/
def text? (s : FileStore) (t : Table) : Except StoreError (Option String) :=
  match s.system.read (s.place (fileName t)) with
  | .error .notFound => .ok none
  | text => some <$> access t text

/-- The rows of a table, none if it has no file; a closed store can still be read. -/
def rows (s : FileStore) (t : Table) : Except StoreError (List Row) := do
  match ← s.text? t with
  | none => return []
  | some text => parse t text

def persist (t : Table) (rows : List Row) : StoreOp FileStore Unit := do
  let s ← get
  Store.accepts s.closed t rows
  let text := (← s.text? t).getD "" ++ render rows
  let system ← access t (s.system.write (s.place (fileName t)) text)
  set { s with system }

/-- The file is only written again if that removes a row. -/
def deleteSlot (t : Table) (slot : Slot) : StoreOp FileStore Unit := do
  let s ← get
  Store.accepts s.closed t []
  let rows ← s.rows t
  if rows.any (·.slot == slot) then
    let draft := s.place (draftName t)
    let system ← access t do
      let system ← s.system.write draft (render (rows.filter (·.slot != slot)))
      system.move draft (s.place (fileName t))
    set { s with system }

def close : StoreOp FileStore Unit := do
  let s ← get
  if s.closed then throw .closed else set { s with closed := true }

/-- A new, open store over the files of this one. -/
def reopen (s : FileStore) : FileStore := { s with closed := false }

def store : Store FileStore := { persist, deleteSlot, close, rows, isClosed := (·.closed) }

end FileStore

end EpochRewards
