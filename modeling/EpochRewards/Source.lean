import EpochRewards.Ledger
import EpochRewards.Snapshot

/-!
Data sources.

A source answers a request by what is asked for and by how often the same has been asked for
before, so a failure may pass. Absence is told apart from every other failure.
-/

namespace EpochRewards

inductive Resource where
  | block
  | report
  | duties
  | state
  deriving DecidableEq

namespace Resource

def all : List Resource := [block, report, duties, state]

def name : Resource → String
  | block => "block"
  | report => "block_rewards"
  | duties => "duties"
  | state => "state"

def ofName? (s : String) : Option Resource := all.find? (·.name == s)

end Resource

inductive FetchError where
  /-- the resource does not exist -/
  | notFound (r : Resource) (id : Nat)
  | transport (r : Resource) (id : Nat) (message : String)
  | undecodable (r : Resource) (id : Nat)
  | noProposer (slot : Slot)
  | other (message : String)
  deriving DecidableEq

namespace FetchError

def message : FetchError → String
  | notFound r id => r.name ++ s!" {id} not found"
  | transport r id message => "failed to fetch " ++ r.name ++ s!" {id}: {message}"
  | undecodable r id => "failed to decode " ++ r.name ++ s!" {id}"
  | noProposer slot => s!"no proposer is assigned to slot {slot}"
  | other message => message

def isNotFound : FetchError → Bool
  | notFound .. => true
  | _ => false

end FetchError

abbrev Fetched (α : Type) := Except FetchError α

/-- Absence is a result of its own, no failure. -/
def Fetched.found {α : Type} : Fetched α → Fetched (Option α)
  | .ok a => .ok (some a)
  | .error e => if e.isNotFound then .ok none else .error e

/-- The answers to the request of number 0, 1, … for each resource. -/
structure Source where
  block : Slot → Nat → Fetched Block
  report : Slot → Nat → Fetched RewardReport
  duties : Epoch → Nat → Fetched Duties
  /-- snapshots without blocks and duties -/
  state : Slot → Nat → Fetched Snapshot

/-- How often each resource has been asked for. -/
structure Requests where
  blocks : Ledger Nat
  reports : Ledger Nat
  duties : Ledger Nat
  states : Ledger Nat
  deriving DecidableEq

namespace Requests

def none : Requests := ⟨.empty, .empty, .empty, .empty⟩

def count (l : Ledger Nat) (id : Nat) : Ledger Nat := l.insert id (l.amount id + 1)

end Requests

namespace Source

/-- An answer together with the requests made up to then. -/
abbrev Asking := StateM Requests

def fetchBlock (src : Source) (slot : Slot) : Asking (Fetched Block) := do
  let q ← get
  set { q with blocks := Requests.count q.blocks slot }
  return src.block slot (q.blocks.amount slot)

def fetchReport (src : Source) (slot : Slot) : Asking (Fetched RewardReport) := do
  let q ← get
  set { q with reports := Requests.count q.reports slot }
  return src.report slot (q.reports.amount slot)

def fetchDuties (src : Source) (epoch : Epoch) : Asking (Fetched Duties) := do
  let q ← get
  set { q with duties := Requests.count q.duties epoch }
  return src.duties epoch (q.duties.amount epoch)

def fetchState (src : Source) (slot : Slot) : Asking (Fetched Snapshot) := do
  let q ← get
  set { q with states := Requests.count q.states slot }
  return src.state slot (q.states.amount slot)

end Source

end EpochRewards
