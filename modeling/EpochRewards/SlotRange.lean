import EpochRewards.Plan
import EpochRewards.Reward.Window

/-!
Slot ranges expanded to whole epochs.

A window spans three snapshots, so two epochs before the first requested one are needed. The
rows about an epoch come from the window that starts with it, so two after the last one are
needed as well.
-/

namespace EpochRewards

/-- The distance between the first and the last epoch of a window. -/
def windowReach : Nat := 2

/-- The epochs `first, …, last`. -/
structure EpochSpan where
  first : Epoch
  last : Epoch
  deriving DecidableEq

namespace EpochSpan

def contains (s : EpochSpan) (e : Epoch) : Bool := s.first ≤ e && e ≤ s.last

def toList (s : EpochSpan) : List Epoch := List.range' s.first (s.last + 1 - s.first)

end EpochSpan

structure SlotRange where
  initSlot : Slot
  /-- the last slot of the final epoch -/
  finalSlot : Slot
  initEpoch : Epoch
  finalEpoch : Epoch
  deriving DecidableEq

namespace SlotRange

def ofSlots (net : Network) (initSlot finalSlot : Slot) : Except RunError SlotRange :=
  if finalSlot < initSlot then .error (.invalidSlotRange initSlot finalSlot)
  else
    let finalEpoch := net.epochOf finalSlot
    .ok ⟨initSlot, net.terminalSlot finalEpoch, net.epochOf initSlot, finalEpoch⟩

/-- The epochs whose snapshots are needed. -/
def downloadEpochs (r : SlotRange) : EpochSpan :=
  ⟨r.initEpoch - windowReach, Word.satAdd r.finalEpoch windowReach⟩

/-- The epochs in which a window ends. -/
def windowEpochs (r : SlotRange) : EpochSpan :=
  ⟨r.initEpoch, Word.satAdd r.finalEpoch windowReach⟩

/-- The epochs that were asked for. -/
def analysedEpochs (r : SlotRange) : EpochSpan := ⟨r.initEpoch, r.finalEpoch⟩

def epochCount (r : SlotRange) : Except Fault Nat := do
  Word.add (← Word.sub r.finalEpoch r.initEpoch) 1

def windowCount (r : SlotRange) : Except Fault Nat := do
  Word.add (← r.epochCount) windowReach

/-- The requested epochs that miss rows without the window ending in `next`: the validator
rows of its last epoch and the other rows of its first. -/
def coveredBy (r : SlotRange) (next : Epoch) : List Epoch :=
  let first := if windowReach ≤ next then [next - windowReach] else []
  (next :: first).filter r.analysedEpochs.contains

/-- How many snapshots of the first windows lie before genesis. -/
def preGenesisEpochs (r : SlotRange) : Nat := windowReach - r.initEpoch

def writesValidatorRows (r : SlotRange) (w : Window) : Bool :=
  r.initSlot ≤ w.next.slot && w.next.slot ≤ r.finalSlot

/-- Rows about the first epoch of a window, never for a placeholder. -/
def writesEpochRows (r : SlotRange) (w : Window) : Bool :=
  !w.prev.isPlaceholder && r.initSlot ≤ w.prev.slot && w.prev.slot ≤ r.finalSlot

end SlotRange

end EpochRewards
