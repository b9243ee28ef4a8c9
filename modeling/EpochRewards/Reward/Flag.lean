import EpochRewards.Reward.Error

/-!
Participation flags: whether a vote was timely for its source, its target and its head.
-/

namespace EpochRewards

inductive Flag where
  | source
  | target
  | head
  deriving DecidableEq

namespace Flag

def all : List Flag := [source, target, head]

def ofIndex? (i : Nat) : Option Flag := all[i]?

/-- The flag's share of the base reward, out of `weightDenominator`. -/
def weight : Flag → Nat
  | source => 14
  | target => 26
  | head => 14

end Flag

def syncWeight : Nat := 2

def proposerWeight : Nat := 8

def weightDenominator : Nat := 64

structure Flags where
  source : Bool
  target : Bool
  head : Bool
  deriving DecidableEq

namespace Flags

def none : Flags := ⟨false, false, false⟩

def has (f : Flags) : Flag → Bool
  | .source => f.source
  | .target => f.target
  | .head => f.head

def set (f : Flags) : Flag → Flags
  | .source => { f with source := true }
  | .target => { f with target := true }
  | .head => { f with head := true }

def isEmpty (f : Flags) : Bool := !f.source && !f.target && !f.head

def toList (f : Flags) : List Bool := [f.source, f.target, f.head]

def ofList? : List Bool → Option Flags
  | [source, target, head] => some ⟨source, target, head⟩
  | _ => Option.none

def codec : Codec Flags := (Codec.list Codec.bool).mapped toList ofList?

end Flags

/-- An amount for each flag. -/
structure FlagTotals where
  source : Gwei
  target : Gwei
  head : Gwei
  deriving DecidableEq

namespace FlagTotals

def zero : FlagTotals := ⟨0, 0, 0⟩

def get (t : FlagTotals) : Flag → Gwei
  | .source => t.source
  | .target => t.target
  | .head => t.head

def set (t : FlagTotals) (amount : Gwei) : Flag → FlagTotals
  | .source => { t with source := amount }
  | .target => { t with target := amount }
  | .head => { t with head := amount }

def toList (t : FlagTotals) : List Gwei := [t.source, t.target, t.head]

end FlagTotals

/-- The largest delay with which a vote still earns a flag. -/
def Network.flagDelay (net : Network) : Flag → Nat
  | .source => Word.sqrt net.slotsPerEpoch.val
  | .target => net.slotsPerEpoch.val
  | .head => net.minInclusionDelay.val

def Network.flagDelayAt (net : Network) (index : Nat) : Calc Nat := do
  return net.flagDelay (← (Flag.ofIndex? index).orFail (.unknownFlag index))

end EpochRewards
