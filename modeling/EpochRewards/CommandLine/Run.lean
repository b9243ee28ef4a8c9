import EpochRewards.Analysis
import EpochRewards.CommandLine
import EpochRewards.Source.Dump
import EpochRewards.Store.Files

/-!
Carrying out an assignment, from a dump to the tables of a folder.
-/

namespace EpochRewards.CommandLine

/-- The exit codes of the program. -/
inductive Exit where
  | success
  | failure
  | misuse
  deriving DecidableEq

def Exit.code : Exit → Nat
  | success => 0
  | failure => 1
  | misuse => 2

def UsageError.exit : UsageError → Exit
  | help => .success
  | _ => .misuse

/-- Runs the plan over a dump and the tables that are already there. -/
def Assignment.run (a : Assignment) (read : Dump.Reader) (tables : FileStore) :
    RunEnd FileStore :=
  a.plan.run a.network (Dump.source read) FileStore.store false .none tables

def exitOf {ε : Type} : Except ε RunReport → Exit
  | .ok _ => .success
  | .error _ => .failure

/-- Everything that an assignment reads of its dump. -/
def Assignment.resources (a : Assignment) : List (Resource × Nat) :=
  let resources? := do
    let r ← (SlotRange.ofSlots a.network a.plan.initSlot a.plan.finalSlot).toOption
    (Dump.resources a.network r).toOption
  resources?.getD []

/-- The store in the output directory, which is made if it is not there. -/
def Assignment.openStore (a : Assignment) (fs : FileSystem) : Except PathError FileStore := do
  let path := Path.ofString a.outputDirectory
  FileStore.openAt (← fs.makeFolders path) path

/-- What the program does: its exit and the file system that it leaves behind. -/
def carryOut (fs : FileSystem) (arguments : List String) : Exit × FileSystem :=
  match parse arguments with
  | .error e => (e.exit, fs)
  | .ok invocation =>
    match invocation.assignment fs.text? with
    | .error _ => (.misuse, fs)
    | .ok a =>
      match a.openStore fs with
      | .error _ => (.failure, fs)
      | .ok store =>
        let done := a.run (Dump.reader fs (.ofString a.snapshotDirectory)) store
        (exitOf done.result, done.contents.system)

end EpochRewards.CommandLine
