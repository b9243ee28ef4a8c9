import EpochRewards.Reward.Altair
import EpochRewards.Reward.Phase0

/-!
Accounting by the rules of the fork in force.
-/

namespace EpochRewards.Bundle

def openPhase0 (net : Network) (preference : ReportPreference) (w : Window) :
    Except Fault Bundle :=
  fresh net .phase0 preference w

/-- A bundle under the rules of the current epoch's phase, or of Altair if that is later. -/
def openAltair (net : Network) (preference : ReportPreference) (w : Window) :
    Except Fault Bundle :=
  fresh net ((net.phaseAt w.current.epoch).later .altair) preference w

/-- The passes of the bundle's phase. -/
def prepare : Pass Unit := do
  if (← get).phase.usesParticipationFlags then Altair.prepare else Phase0.prepare

/-- The record of a validator, without effect on the bundle. -/
def resolve (b : Bundle) (v : ValidatorIndex) : Calc ValidatorRecord :=
  if b.phase.usesParticipationFlags then Altair.record b v else Phase0.record b v

/-- The bundle after one run of the passes, or why they fail. -/
def prepared (b : Bundle) : Calc Bundle :=
  match prepare.run b with
  | .ok _ b => .ok b
  | .error e _ => .error e

/-- The bundle of a window under the fork in force in its current epoch. -/
def build (net : Network) (preference : ReportPreference) (w : Window) : Calc Bundle := do
  let b ← if (net.phaseAt w.current.epoch).usesParticipationFlags then openAltair net preference w
    else openPhase0 net preference w
  b.prepared

end EpochRewards.Bundle
