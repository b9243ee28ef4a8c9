import EpochRewards.Source

/-!
Downloading the snapshot of an epoch: its state, its duties and the blocks of its slots.

A request that fails is repeated, unless the resource is absent. A slot without a block was
missed by the validator first assigned to it.
-/

namespace EpochRewards.Source

/-- Requests of which one that fails for good ends the download. -/
abbrev Fetching := EStateM (Failure FetchError) Requests

def settle {α : Type} (ask : Asking (Fetched α)) : Fetching α := fun q =>
  match ask.run q with
  | (.ok a, q) => .ok a q
  | (.error e, q) => .error (.error e) q

/-- Asks again after every failure but absence, at most as often as the number says. -/
def retrying {α : Type} (ask : Asking (Fetched α)) : Nat → Asking (Fetched α)
  | 0 => ask
  | n + 1 => do
    match ← ask with
    | .ok a => return .ok a
    | .error e => if e.isNotFound then return .error e else retrying ask n

/-! ### Blocks -/

/-- A block with its report; a failure of that request is no failure of the block. -/
def attachReport (src : Source) (slot : Slot) (b : Block) : Fetching Block := fun q =>
  let (report, q) := (src.fetchReport slot).run q
  .ok { b with report := report.toOption } q

/-- Where the download of a block stands. -/
inductive Cell where
  /-- to be asked for, maybe again -/
  | missing
  | got (b : Block)
  /-- given up -/
  | lost (e : Failure FetchError)
  deriving DecidableEq

def Cell.block? : Cell → Option Block
  | .got b => some b
  | _ => none

/-- One attempt at the block of a slot, and the last one where that is said. -/
def attemptBlock (src : Source) (d : Duties) (last : Bool) (slot : Slot) : Fetching Cell := fun q =>
  let (answer, q) := (src.fetchBlock slot).run q
  match answer.found with
  | .ok (some b) => (.got <$> src.attachReport slot b).run q
  | .ok none =>
    match d.proposer? slot with
    | some v => .ok (.got (.missed slot v)) q
    | none => .ok (.lost (.error (.noProposer slot))) q
  | .error e => .ok (if last then .lost (.error e) else .missing) q

/-- The failure of the first block that is not there, if that is given up. -/
def firstLoss : List (Slot × Cell) → Except (Failure FetchError) Unit
  | (_, .got _) :: rest => firstLoss rest
  | (_, .lost e) :: _ => .error e
  | _ => .ok ()

/-- Up to this many blocks, the loss of one ends the download of all at once. Of more blocks, one
that is lost only ends it when all blocks before it are there. -/
def promptLimit : Nat := 30

/-- A round of attempts at the missing blocks, slot by slot. The flag `heeded` says whether a loss
here ends the download. -/
def attemptCells (src : Source) (d : Duties) (prompt last : Bool) :
    Bool → List (Slot × Cell) → Fetching (List (Slot × Cell))
  | _, [] => return []
  | heeded, (slot, .missing) :: rest => do
    let cell ← src.attemptBlock d last slot
    if heeded then firstLoss ((slot, cell) :: rest)
    let heeded := heeded && (prompt || cell.block?.isSome)
    return (slot, cell) :: (← attemptCells src d prompt last heeded rest)
  | heeded, (slot, cell) :: rest => do
    let heeded := heeded && (prompt || cell.block?.isSome)
    return (slot, cell) :: (← attemptCells src d prompt last heeded rest)

/-- Rounds of attempts until all blocks are there. -/
def fillCells (src : Source) (d : Duties) (prompt : Bool) :
    Nat → List (Slot × Cell) → Fetching (List Block)
  | 0, cells => return (← src.attemptCells d prompt true true cells).filterMap (·.2.block?)
  | n + 1, cells => do
    let cells ← src.attemptCells d prompt false true cells
    let blocks := cells.filterMap (·.2.block?)
    if blocks.length = cells.length then return blocks else src.fillCells d prompt n cells

def fetchBlocks (src : Source) (d : Duties) (retries : Nat) (slots : List Slot) :
    Fetching (List Block) :=
  src.fillCells d (slots.length ≤ promptLimit) retries (slots.map (·, .missing))

/-! ### Snapshots -/

def snapshot (src : Source) (net : Network) (retries : Nat) (epoch : Epoch) :
    Fetching Snapshot := do
  let state ← settle (retrying (src.fetchState (net.terminalSlot epoch)) retries)
  let duties ← settle (retrying (src.fetchDuties epoch) retries)
  let slots ← net.slotsOf epoch
  let blocks ← src.fetchBlocks duties retries slots
  return { state with blocks, duties }

end EpochRewards.Source
