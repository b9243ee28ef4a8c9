import EpochRewards.FileSystem
import EpochRewards.Json.Writer
import EpochRewards.SlotRange
import EpochRewards.Snapshot.Format
import EpochRewards.Source.Archive

/-!
Dumps: folders with a JSON file per resource.
-/

namespace EpochRewards

def Resource.folder : Resource → String
  | .block => "blocks"
  | .report => "rewards"
  | .duties => "duties"
  | .state => "states"

/-- The file of a resource, relative to the dump. -/
def Resource.path (r : Resource) (id : Nat) : String := r.folder ++ s!"/{id}.json"

namespace Dump

/-- How the text of a resource is had. -/
abbrev Reader := Resource → Nat → Fetched String

/-- Reads below a path; where nothing is, the resource is absent. -/
def reader (fs : FileSystem) (root : Path) : Reader := fun r id =>
  match fs.read (root.join (.ofString (r.path id))) with
  | .ok text => .ok text
  | .error .notFound => .error (.notFound r id)
  | .error e => .error (.transport r id e.message)

def decode {α : Type} (c : Codec α) (r : Resource) (id : Nat) (text : String) : Fetched α :=
  match Json.parse text >>= c.decode with
  | some a => .ok a
  | none => .error (.undecodable r id)

def source (read : Reader) : Source where
  block slot _ := read .block slot >>= decode Block.codec .block slot
  report slot _ := read .report slot >>= decode RewardReport.codec .report slot
  duties epoch _ := read .duties epoch >>= decode Duties.codec .duties epoch
  state slot _ := read .state slot >>= decode Snapshot.codec .state slot

/-- Everything that a range asks a dump for. -/
def resources (net : Network) (r : SlotRange) : Except Fault (List (Resource × Nat)) := do
  let epochs := r.downloadEpochs.toList
  let slots := (← epochs.mapM net.slotsOf).flatten
  return epochs.map (.state, net.terminalSlot ·) ++ epochs.map (.duties, ·)
    ++ slots.map (.block, ·) ++ slots.map (.report, ·)

/-- The files of a ledger of resources. -/
def texts {α : Type} (c : Codec α) (r : Resource) (l : Ledger α) : List (String × String) :=
  l.entries.map fun (id, a) => (r.path id, (c.encode a).write)

/-- The files of everything that an archive holds. -/
def ofArchive (a : Archive) : List (String × String) :=
  texts Block.codec .block a.blocks ++ texts RewardReport.codec .report a.reports
    ++ texts Duties.codec .duties a.duties ++ texts Snapshot.codec .state a.states

/-- Writes the files of an archive below a path. -/
def write (fs : FileSystem) (root : Path) (a : Archive) : Except PathError FileSystem := do
  (ofArchive a).foldlM (fun fs (path, text) => fs.change (root.join (.ofString path)) (some text))
    (← fs.makeFolders root)

end Dump

end EpochRewards
