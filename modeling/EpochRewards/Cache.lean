import EpochRewards.Capacity
import EpochRewards.Ledger
import EpochRewards.Network

/-!
The cache through which snapshots are handed over, keyed by slot.

Every slot has a promise that can be awaited before it is settled. A published value holds a
share of the capacity until it is taken; an insertion without a share waits in line for one. A
call that cannot be answered yet stays in the cache under a ticket until it is polled.
-/

namespace EpochRewards

inductive CacheError where
  | closed
  | unavailable (slot : Slot)
  deriving DecidableEq

def CacheError.message : CacheError → String
  | closed => "state cache is closed"
  | unavailable slot => s!"state at slot {slot} could not be obtained"

inductive Promise (α : Type) where
  | pending
  | ready (a : α)
  | unavailable
  deriving DecidableEq

def Promise.isSettled {α : Type} : Promise α → Bool
  | pending => false
  | _ => true

namespace Cache

structure Entry (α : Type) where
  promise : Promise α
  holdsShare : Bool
  deriving DecidableEq

/-- A call that has been made and not been answered. -/
inductive Call (α : Type) where
  /-- an insertion, which may have been granted a share -/
  | insert (slot : Slot) (a : α) (granted : Bool)
  /-- a wait, with the last value it saw of the promise and whether that is still there -/
  | wait (slot : Slot) (seen : Promise α) (attached : Bool)
  deriving DecidableEq

abbrev Ticket := Nat

inductive Answer (α : Type) where
  | inserted
  | taken (a : α)
  | refused (e : CacheError)
  deriving DecidableEq

/-- Which of the two is heeded when a call could be answered and the cache is closed. -/
inductive Branch where
  | result
  | closing
  deriving DecidableEq

end Cache

structure Cache (α : Type) where
  entries : Ledger (Cache.Entry α)
  /-- the shares of the capacity that nobody holds -/
  free : Nat
  /-- the calls without an answer, the oldest first -/
  calls : List (Cache.Ticket × Cache.Call α)
  nextTicket : Cache.Ticket
  closed : Bool
  deriving DecidableEq

namespace Cache

variable {α : Type}

def ofCapacity (capacity : Nat) : Cache α := ⟨.empty, capacity, [], 0, false⟩

/-- An empty cache, if the capacity is within the limit. -/
def create (capacity : Nat) : Except Fault (Cache α) := do
  Capacity.shares capacity
  return ofCapacity capacity

/-- The number of published values. -/
def size (c : Cache α) : Nat := c.entries.values.countP (·.holdsShare)

def isEmpty (c : Cache α) : Bool := c.size == 0

/-! ### Shares -/

/-- Grants a share to the insertion first in line, if there is one. -/
def grant : List (Ticket × Call α) → Option (List (Ticket × Call α))
  | [] => none
  | (t, .insert slot a false) :: rest => some ((t, .insert slot a true) :: rest)
  | call :: rest => (grant rest).map (call :: ·)

/-- Returns a share: it goes to the insertion first in line or becomes free. -/
def release (c : Cache α) : Cache α :=
  match grant c.calls with
  | some calls => { c with calls }
  | none => { c with free := c.free + 1 }

/-! ### Entries -/

def tell (slot : Slot) (p : Promise α) : Ticket × Call α → Ticket × Call α
  | (t, .wait s seen true) => (t, .wait s (if s = slot then p else seen) true)
  | call => call

/-- Puts an entry in its slot and shows its promise to those who wait for it. -/
def setEntry (c : Cache α) (slot : Slot) (e : Entry α) : Cache α :=
  { c with entries := c.entries.insert slot e, calls := c.calls.map (tell slot e.promise) }

def detach (slot : Slot) : Ticket × Call α → Ticket × Call α
  | (t, .wait s seen attached) => (t, .wait s seen (attached && s != slot))
  | call => call

/-- Removes the entry of a slot with the share it holds. -/
def removeEntry (c : Cache α) (slot : Slot) : Cache α :=
  match c.entries.get? slot with
  | none => c
  | some e =>
    let c := { c with entries := c.entries.erase slot, calls := c.calls.map (detach slot) }
    if e.holdsShare then c.release else c

/-- Publishes a value with a share of its own; the share of one it replaces is returned. -/
def publish (c : Cache α) (slot : Slot) (a : α) : Cache α :=
  let replaced := ((c.entries.get? slot).map (·.holdsShare)).getD false
  let c := c.setEntry slot ⟨.ready a, true⟩
  if replaced then c.release else c

/-- Settles a promise without a value. A published value keeps its share. -/
def markUnavailable (c : Cache α) (slot : Slot) : Cache α :=
  c.setEntry slot ⟨.unavailable, ((c.entries.get? slot).map (·.holdsShare)).getD false⟩

/-! ### Calls -/

def call? (c : Cache α) (t : Ticket) : Option (Call α) := c.calls.lookup t

def forget (c : Cache α) (t : Ticket) : Cache α :=
  { c with calls := c.calls.filter (·.1 != t) }

/-- Gives a call up. A share it had been granted is passed on. -/
def drop (c : Cache α) (t : Ticket) : Cache α :=
  match c.call? t with
  | some (.insert _ _ true) => (c.forget t).release
  | _ => c.forget t

def enter (c : Cache α) (call : Call α) : Cache α × Ticket :=
  ({ c with calls := c.calls ++ [(c.nextTicket, call)], nextTicket := c.nextTicket + 1 },
    c.nextTicket)

/-- Begins an insertion, which takes a free share at once. -/
def beginInsert (c : Cache α) (slot : Slot) (a : α) : Cache α × Ticket :=
  if 0 < c.free then { c with free := c.free - 1 }.enter (.insert slot a true)
  else c.enter (.insert slot a false)

/-- Begins to wait for the promise of a slot, which is made if there is none. -/
def beginWait (c : Cache α) (slot : Slot) : Cache α × Ticket :=
  match c.entries.get? slot with
  | some e => c.enter (.wait slot e.promise true)
  | none => (c.setEntry slot ⟨.pending, false⟩).enter (.wait slot .pending true)

def delivery (slot : Slot) : Promise α → Answer α
  | .ready a => .taken a
  | .unavailable => .refused (.unavailable slot)
  | .pending => .refused .closed

/-- Tries a call again. Without an answer it goes on waiting. A wait that is answered with the
promise removes whatever entry its slot then has. -/
def poll (c : Cache α) (t : Ticket) (branch : Branch) : Cache α × Option (Answer α) :=
  match c.call? t with
  | none => (c, none)
  | some (.insert slot a granted) =>
    if c.closed && (!granted || branch = .closing) then (c.drop t, some (.refused .closed))
    else if granted then ((c.forget t).publish slot a, some .inserted)
    else (c, none)
  | some (.wait slot seen attached) =>
    if seen.isSettled && (!c.closed || branch = .result) then
      ((c.forget t).removeEntry slot, some (delivery slot seen))
    else if c.closed || !attached then (c.forget t, some (.refused .closed))
    else (c, none)

/-- Refuses every call from now on and drops what is published. -/
def close (c : Cache α) : Cache α := c.entries.keys.foldl removeEntry { c with closed := true }

end Cache

end EpochRewards
