import EpochRewards.Json.Codec

/-!
The phases of the network, in the order in which they follow each other.
-/

namespace EpochRewards

inductive Phase where
  | phase0
  | altair
  | bellatrix
  | capella
  | deneb
  deriving DecidableEq, Repr

namespace Phase

def all : List Phase := [phase0, altair, bellatrix, capella, deneb]

def rank : Phase → Nat
  | phase0 => 0
  | altair => 1
  | bellatrix => 2
  | capella => 3
  | deneb => 4

instance : LE Phase := ⟨fun p q => p.rank ≤ q.rank⟩

instance (p q : Phase) : Decidable (p ≤ q) := inferInstanceAs (Decidable (p.rank ≤ q.rank))

def name : Phase → String
  | phase0 => "phase0"
  | altair => "altair"
  | bellatrix => "bellatrix"
  | capella => "capella"
  | deneb => "deneb"

/-- Names are read without regard to the case of their letters. -/
def ofName? (s : String) : Option Phase :=
  all.find? fun p => s.toList.map Char.toLower == p.name.toList

def codec : Codec Phase := Codec.named name ofName?

/-- Rewards are accounted by participation flags since Altair. -/
def usesParticipationFlags (p : Phase) : Bool := p != phase0

/-- The later of the two. -/
def later (p q : Phase) : Phase := if p ≤ q then q else p

end Phase

end EpochRewards
