import EpochRewards.CommandLine.Run

/-!
The program: reads the files of a dump, runs the analysis and writes the tables.
-/

namespace EpochRewards.Program

open CommandLine

def usage : String :=
  "usage: --snapshot-directory DIRECTORY --output-directory DIRECTORY --init-slot SLOT "
    ++ "--final-slot SLOT [--network NAME] [--workers N] [--batches N] [--batch-size N] "
    ++ "[--state-fetch-retries N] [--state-fetch-retry-delay MILLISECONDS] [--rewrite] "
    ++ "[--external-reward-preference NAME] [--pools-file FILE] [--validator-indices LIST]"

def readText? (path : String) : IO (Option String) := do
  try return some (← IO.FS.readFile path) catch _ => return none

def below (root path : String) : String :=
  if root.endsWith "/" then root ++ path else root ++ "/" ++ path

/-- The text of a resource of a dump. -/
def readResource (root : String) (r : Resource) (id : Nat) : IO (Fetched String) := do
  try return .ok (← IO.FS.readFile (below root (r.path id)))
  catch
    | .noFileOrDirectory .. => return .error (.notFound r id)
    | e => return .error (.transport r id (toString e))

/-- The texts of the given resources; all others are absent. -/
def readDump (root : String) (resources : List (Resource × Nat)) : IO Dump.Reader := do
  let texts ← resources.mapM fun (r, id) => return ((r, id), ← readResource root r id)
  return fun r id => (texts.lookup (r, id)).getD (.error (.notFound r id))

/-- What stands at the path of a table. A file that cannot be read is as good as a folder. -/
def readTable (path : String) : IO (Option Node) := do
  try return some (.file (← IO.FS.readFile path))
  catch
    | .noFileOrDirectory .. => return none
    | _ => return some .folder

def readTables (root : String) : IO FileStore := do
  let nodes ← Table.all.mapM fun t => do
    let name := FileStore.fileName t
    return (← readTable (below root name)).map (name, ·)
  return .ofNodes (nodes.filterMap id)

/-- Writes the tables. One that cannot be written is lost. -/
def writeTables (root : String) (s : FileStore) : IO Unit :=
  s.files.forM fun (name, text) => do
    try IO.FS.writeFile (below root name) text
    catch e => IO.eprintln (toString e)

def perform (a : Assignment) : IO Exit := do
  try
    IO.FS.createDirAll a.outputDirectory
    let read ← readDump a.snapshotDirectory a.resources
    let done := a.run read (← readTables a.outputDirectory)
    writeTables a.outputDirectory done.contents
    return exitOf done.result
  catch e =>
    IO.eprintln (toString e)
    return .failure

def start (arguments : List String) : IO Exit := do
  match parse arguments with
  | .error .help =>
    IO.println usage
    return .success
  | .error e =>
    IO.eprintln e.message
    return e.exit
  | .ok invocation =>
    let pools ← match invocation.arguments.poolsFile with
      | some path => readText? path
      | none => pure none
    match invocation.assignment fun _ => pools with
    | .error e =>
      IO.eprintln e.message
      return .misuse
    | .ok a => perform a

end EpochRewards.Program

def main (arguments : List String) : IO UInt32 := do
  return (← EpochRewards.Program.start arguments).code.toUInt32
