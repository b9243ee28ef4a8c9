import EpochRewards.Network

/-!
Which proposer reward to trust: the one a data source reports or the one computed here.
-/

namespace EpochRewards

inductive ReportPreference where
  /-- the reported figure if it is greater than zero -/
  | strictlyPositive
  /-- the reported figure if there is one -/
  | wheneverReported
  deriving DecidableEq, Repr

namespace ReportPreference

def all : List ReportPreference := [strictlyPositive, wheneverReported]

def name : ReportPreference → String
  | strictlyPositive => "strictly-positive"
  | wheneverReported => "whenever-reported"

def ofName? (s : String) : Option ReportPreference := all.find? (·.name == s)

def codec : Codec ReportPreference := Codec.named name ofName?

def resolve (p : ReportPreference) (reported : Option Gwei) (computed : Gwei) : Gwei :=
  match p, reported with
  | strictlyPositive, some r => if r = 0 then computed else r
  | wheneverReported, some r => r
  | _, none => computed

end ReportPreference

end EpochRewards
