import EpochRewards.SlotRange

/-!
The last snapshots of a download, over which a window slides.
-/

namespace EpochRewards

/-- A window on its way to be accounted. -/
structure EpochTask where
  window : Window
  /-- whether the first epoch was final when the last snapshot was taken -/
  finalized : Bool
  deriving DecidableEq

def Window.task (w : Window) : EpochTask := ⟨w, w.prev.epoch ≤ w.next.finalized.epoch⟩

/-- The latest snapshots, `none` for one that could not be had. -/
abbrev History := List (Option Snapshot)

namespace History

/-- Before the first download there are only the placeholders before genesis. -/
def start (r : SlotRange) : History :=
  List.replicate r.preGenesisEpochs (some (.placeholder 0 0))

def windowLength : Nat := windowReach + 1

def push (h : History) (s : Option Snapshot) : History :=
  let h := h ++ [s]
  h.drop (h.length - windowLength)

/-- The window of three snapshots that are all there. -/
def window? : History → Option Window
  | [some prev, some current, some next] => some ⟨prev, current, next⟩
  | _ => none

end History

end EpochRewards
