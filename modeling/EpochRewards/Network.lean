import EpochRewards.Phase

/-!
Network profiles: the parameters in which networks differ.

Forks that are not scheduled have the largest word as their epoch.
-/

namespace EpochRewards

abbrev Slot := Nat

abbrev Epoch := Nat

/-- Amounts of the currency's smallest unit. -/
abbrev Gwei := Nat

abbrev ValidatorIndex := Nat

/-- The epoch of what is not scheduled. -/
def farFuture : Epoch := Word.max

structure Network where
  name : String
  genesisTime : Nat
  altairEpoch : Epoch
  bellatrixEpoch : Epoch
  capellaEpoch : Epoch
  denebEpoch : Epoch
  slotsPerEpoch : Positive
  /-- the length of the ring of block roots -/
  rootRing : Positive
  slotSeconds : Nat
  minInclusionDelay : Positive
  baseRewardFactor : Nat
  balanceIncrement : Positive
  proposerQuotient : Positive
  whistleblowerQuotient : Positive
  syncCommitteeSize : Positive
  deriving DecidableEq

/-- Why a profile is refused. -/
inductive NetworkError where
  | nameEmpty
  | nameIllegal
  | forksOutOfOrder
  deriving DecidableEq

def NetworkError.message : NetworkError → String
  | nameEmpty => "configuration name is empty"
  | nameIllegal => "configuration name contains illegal characters"
  | forksOutOfOrder => "fork epochs are not in ascending order"

namespace Network

/-- A profile without forks under a name of its own. -/
def custom : Network where
  name := "default"
  genesisTime := 1606824023
  altairEpoch := farFuture
  bellatrixEpoch := farFuture
  capellaEpoch := farFuture
  denebEpoch := farFuture
  slotsPerEpoch := ⟨32, by decide⟩
  rootRing := ⟨8192, by decide⟩
  slotSeconds := 12
  minInclusionDelay := ⟨1, by decide⟩
  baseRewardFactor := 64
  balanceIncrement := ⟨1000000000, by decide⟩
  proposerQuotient := ⟨8, by decide⟩
  whistleblowerQuotient := ⟨512, by decide⟩
  syncCommitteeSize := ⟨512, by decide⟩

def mainnet : Network :=
  { custom with
    name := "mainnet"
    genesisTime := 1606824023
    altairEpoch := 74240
    bellatrixEpoch := 144896
    capellaEpoch := 194048
    denebEpoch := 269568 }

def gnosis : Network :=
  { custom with
    name := "gnosis"
    genesisTime := 1638968400
    altairEpoch := 512
    bellatrixEpoch := 385536
    capellaEpoch := 648704
    denebEpoch := 889856
    slotsPerEpoch := ⟨16, by decide⟩
    slotSeconds := 5
    baseRewardFactor := 25 }

def sepolia : Network :=
  { custom with
    name := "sepolia"
    genesisTime := 1655733600
    altairEpoch := 50
    bellatrixEpoch := 100
    capellaEpoch := 56832
    denebEpoch := 132608 }

def holesky : Network :=
  { custom with
    name := "holesky"
    genesisTime := 1695902400
    altairEpoch := 0
    bellatrixEpoch := 0
    capellaEpoch := 256
    denebEpoch := 29696 }

/-- A small profile for trials. -/
def minimal : Network :=
  { custom with
    name := "minimal"
    genesisTime := 1578009600
    slotsPerEpoch := ⟨8, by decide⟩
    rootRing := ⟨64, by decide⟩
    slotSeconds := 6
    syncCommitteeSize := ⟨32, by decide⟩ }

def presets : List Network := [mainnet, gnosis, sepolia, holesky, minimal]

def ofName? (name : String) : Option Network := presets.find? (·.name == name)

def forkEpoch (net : Network) : Phase → Epoch
  | .phase0 => 0
  | .altair => net.altairEpoch
  | .bellatrix => net.bellatrixEpoch
  | .capella => net.capellaEpoch
  | .deneb => net.denebEpoch

def forkEpochs (net : Network) : List (Phase × Epoch) :=
  Phase.all.map fun p => (p, net.forkEpoch p)

/-- The last phase reached before a fork that lies ahead. -/
def phaseAt (net : Network) (epoch : Epoch) : Phase :=
  ((Phase.all.takeWhile fun p => net.forkEpoch p ≤ epoch).getLast?).getD .phase0

def isSorted : List Nat → Bool
  | a :: b :: rest => a ≤ b && isSorted (b :: rest)
  | _ => true

def isNameChar (c : Char) : Bool := ('a' ≤ c && c ≤ 'z') || ('0' ≤ c && c ≤ '9') || c == '-'

def validate (net : Network) : Except NetworkError Unit :=
  if net.name.isEmpty then .error .nameEmpty
  else if !net.name.toList.all isNameChar then .error .nameIllegal
  else if !isSorted (net.forkEpochs.map (·.2)) then .error .forksOutOfOrder
  else .ok ()

open Codec Codec.Fields in
/-- Members that are missing have the values of the custom profile, others are skipped. -/
def codec : Codec Network :=
  record false
    (dft "CONFIG_NAME" text custom.name <|
      dft "GENESIS_TIME" word custom.genesisTime <|
      dft "ALTAIR_FORK_EPOCH" word custom.altairEpoch <|
      dft "BELLATRIX_FORK_EPOCH" word custom.bellatrixEpoch <|
      dft "CAPELLA_FORK_EPOCH" word custom.capellaEpoch <|
      dft "DENEB_FORK_EPOCH" word custom.denebEpoch <|
      dft "SLOTS_PER_EPOCH" positive custom.slotsPerEpoch <|
      dft "SLOTS_PER_HISTORICAL_ROOT" positive custom.rootRing <|
      dft "SLOT_DURATION" word custom.slotSeconds <|
      dft "MIN_INCLUSION_DELAY" positive custom.minInclusionDelay <|
      dft "BASE_REWARD_FACTOR" word custom.baseRewardFactor <|
      dft "EFFECTIVE_BALANCE_INCREMENT" positive custom.balanceIncrement <|
      dft "PROPOSER_REWARD_QUOTIENT" positive custom.proposerQuotient <|
      dft "WHISTLEBLOWER_REWARD_QUOTIENT" positive custom.whistleblowerQuotient <|
      dft "SYNC_COMMITTEE_SIZE" positive custom.syncCommitteeSize <|
      none)
    (fun n => (n.name, n.genesisTime, n.altairEpoch, n.bellatrixEpoch, n.capellaEpoch,
      n.denebEpoch, n.slotsPerEpoch, n.rootRing, n.slotSeconds, n.minInclusionDelay,
      n.baseRewardFactor, n.balanceIncrement, n.proposerQuotient, n.whistleblowerQuotient,
      n.syncCommitteeSize, ()))
    fun (name, genesisTime, altairEpoch, bellatrixEpoch, capellaEpoch, denebEpoch, slotsPerEpoch,
      rootRing, slotSeconds, minInclusionDelay, baseRewardFactor, balanceIncrement,
      proposerQuotient, whistleblowerQuotient, syncCommitteeSize, _) =>
      { name, genesisTime, altairEpoch, bellatrixEpoch, capellaEpoch, denebEpoch, slotsPerEpoch,
        rootRing, slotSeconds, minInclusionDelay, baseRewardFactor, balanceIncrement,
        proposerQuotient, whistleblowerQuotient, syncCommitteeSize }

/-! ### Slots and epochs -/

def epochOf (net : Network) (slot : Slot) : Epoch := slot / net.slotsPerEpoch.val

def startSlot (net : Network) (epoch : Epoch) : Slot := Word.satMul epoch net.slotsPerEpoch.val

/-- The last slot of an epoch, where its snapshot is taken. -/
def terminalSlot (net : Network) (epoch : Epoch) : Slot :=
  net.startSlot (Word.satAdd epoch 1) - 1

def isTerminal (net : Network) (slot : Slot) : Bool :=
  slot % net.slotsPerEpoch.val == net.slotsPerEpoch.val - 1

/-- The slot before which an epoch ends. -/
def endSlot (net : Network) (epoch : Epoch) : Except Fault Slot := do
  return net.startSlot (← Word.add epoch 1)

def slotsOf (net : Network) (epoch : Epoch) : Except Fault (List Slot) := do
  let start := net.startSlot epoch
  return List.range' start ((← net.endSlot epoch) - start)

/-- The delay recorded for a vote that was never included. -/
def missingDelay (net : Network) : Except Fault Nat := Word.add net.slotsPerEpoch.val 1

end Network

end EpochRewards
