import EpochRewards.Chain
import EpochRewards.Json.Pointer
import EpochRewards.Snapshot.Format

/-!
Breaking single pieces of a chain. An edit that fails keeps what it had already changed.
-/

namespace EpochRewards.Chain

abbrev Edit := EStateM (Failure ChainError) Chain

def setState (epoch : Epoch) (s : Snapshot) : Edit Unit :=
  modify fun c => { c with states := c.states.set epoch s }

/-- Changes the first block listed for a slot and returns it as it was. -/
def editBlock (slot : Slot) (f : Block → Block) : Edit Block := do
  let c ← get
  let epoch := c.network.epochOf slot
  let s ← c.state epoch
  match s.blockAt? slot with
  | none => throw (.error (.noBlockAt slot))
  | some block =>
    setState epoch { s with blocks := s.blocks.modify (s.blocks.findIdx (·.slot == slot)) f }
    return block

/-- Turns the block of a slot into a missed one. The votes it carried are included a slot
later. -/
def missBlock (slot : Slot) : Edit Unit := do
  let block ← editBlock slot fun b =>
    { b with proposed := false, syncAggregate := none, attestations := [] }
  let later ← Word.add slot 1
  let _ ← editBlock later fun b => { b with attestations := block.attestations ++ b.attestations }

/-- Changes one vote unless a change before it failed. -/
def editVote (f : Attestation → Except Fault Attestation) (a : Attestation) :
    StateM (Option Fault) Attestation := do
  match ← get, f a with
  | none, .ok a => return a
  | none, .error e => do
    set (some e)
    return a
  | some _, _ => return a

def editVotesOf (f : Attestation → Except Fault Attestation) (s : Snapshot) :
    StateM (Option Fault) Snapshot := do
  let blocks ← s.blocks.mapM fun b => do
    return { b with attestations := ← b.attestations.mapM (editVote f) }
  return { s with blocks }

/-- Changes the votes of every block in turn, up to the first that fails. -/
def editVotes (f : Attestation → Except Fault Attestation) : Edit Unit := do
  let c ← get
  let (states, fault) := (c.states.mapM (editVotesOf f)).run none
  set { c with states }
  match fault with
  | some e => throw (.fault e)
  | none => return

/-- The slot of a validator's duty and its place in the committee. -/
def dutyOf (c : Chain) (v : ValidatorIndex) (epoch : Epoch) :
    Except (Failure ChainError) (Slot × Nat) := do
  let s ← c.state epoch
  let duty? := s.duties.committees.findSome? fun committee =>
    (committee.members.idxOf? v).map (committee.slot, ·)
  duty?.orFail (.noDuty v epoch)

/-- Clears the vote of a validator for its duty in an epoch wherever it is included. -/
def removeVote (v : ValidatorIndex) (epoch : Epoch) : Edit Unit := do
  let (slot, place) ← (← get).dutyOf v epoch
  editVotes fun a =>
    if a.data.slot = slot then return { a with bits := ← a.bits.clear place } else return a

/-- Points every vote of an epoch to a head that is not canonical. -/
def voteForWrongHeads (epoch : Epoch) : Edit Unit := do
  let net := (← get).network
  let stop ← net.endSlot epoch
  editVotes fun a =>
    if net.startSlot epoch ≤ a.data.slot ∧ a.data.slot < stop then
      return { a with data := { a.data with blockRoot := .ones } }
    else return a

/-- Changes the JSON form of an epoch's snapshot and reads it back. -/
def editState (epoch : Epoch) (f : Json → Option Json) : Edit Unit := do
  let s ← (← get).state epoch
  match f (Snapshot.codec.encode s) with
  | none => throw (.error .noSuchPath)
  | some j =>
    match Snapshot.codec.decode j with
    | none => throw (.error .undecodable)
    | some s => setState epoch s

inductive PointerEdit where
  | set (value : Json)
  | push (value : Json)
  | remove

def PointerEdit.apply (path : Json.Path) (j : Json) : PointerEdit → Option Json
  | set value => j.setAt path value
  | push value => j.pushAt path value
  | remove => j.removeAt path

/-- Edits the part of an epoch's snapshot that a pointer addresses. -/
def editPart (epoch : Epoch) (pointer : String) (edit : PointerEdit) : Edit Unit :=
  editState epoch fun j => Json.path? pointer >>= fun path => edit.apply path j

end EpochRewards.Chain
