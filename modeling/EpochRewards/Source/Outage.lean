import EpochRewards.Source

/-!
Outages: requests that fail for a while although the source has an answer.
-/

namespace EpochRewards

structure Outage where
  resource : Resource
  id : Nat
  /-- the number of requests that fail, or all of them -/
  times : Option Nat
  error : FetchError
  deriving DecidableEq

namespace Outage

/-- Whether the request of a number fails. -/
def covers (o : Outage) (number : Nat) : Bool := o.times.all (number < ·)

/-- The error of the request of a number. Of the outages of a resource only the last one counts. -/
def error? (r : Resource) (id : Nat) (os : List Outage) (number : Nat) : Option FetchError :=
  match os.reverse.find? fun o => o.resource = r ∧ o.id = id with
  | some o => if o.covers number then some o.error else none
  | none => none

def answer {α : Type} (r : Resource) (id : Nat) (os : List Outage) (number : Nat)
    (otherwise : Fetched α) : Fetched α :=
  match error? r id os number with
  | some e => .error e
  | none => otherwise

/-- A source under outages. -/
def strike (os : List Outage) (src : Source) : Source where
  block slot number := answer .block slot os number (src.block slot number)
  report slot number := answer .report slot os number (src.report slot number)
  duties epoch number := answer .duties epoch os number (src.duties epoch number)
  state slot number := answer .state slot os number (src.state slot number)

end Outage

end EpochRewards
