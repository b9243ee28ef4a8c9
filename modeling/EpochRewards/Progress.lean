import EpochRewards.SlotRange

/-!
The progress of a run, counted in windows.
-/

namespace EpochRewards

@[ext]
structure Progress where
  processed : Nat
  target : Nat
  deriving DecidableEq

namespace Progress

def start (target : Nat) : Progress := ⟨0, target⟩

/-- The progress of a run over a range before any window is done with. A range whose windows
cannot be counted is not run over. -/
def ofRange (r : SlotRange) : Progress := .start (r.windowCount.toOption.getD 0)

def advance (p : Progress) : Progress := { p with processed := p.processed + 1 }

def render (p : Progress) : String := s!"epochs: {p.processed}/{p.target}"

end Progress

end EpochRewards
