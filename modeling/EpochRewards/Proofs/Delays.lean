import EpochRewards.Proofs.Polls

/-!
Delays in records.

A record has the delay of the first vote of its validator that counts, or else one more than the
slots of an epoch. The blocks of two epochs include votes for the first of them, so a vote that took
that long is possible, and then the record does not say which of both is meant.
-/

namespace EpochRewards

namespace Bundle

open Pass

/-! ### Delays after the walk over the votes -/

/-- The delay of the first vote of a validator that counts. -/
def firstDelay (b : Bundle) (v : ValidatorIndex) : Option Nat :=
  (b.inclusions.find? (·.validator = v)).map (·.delay)

/-- The delays of all validators with a tally are those of `delays`. -/
def HasDelays (delays : ValidatorIndex → Option Nat) (b : Bundle) : Prop :=
  ∀ v t, b.tallies[v]? = some t → t.inclusionDelay = delays v

variable {net : Network} {phase : Phase} {preference : ReportPreference} {w : Window}
  {a b c : Bundle} {v : ValidatorIndex} {rec : ValidatorRecord} {u : Unit}
  {delays : ValidatorIndex → Option Nat}

lemma firstDelay_congr (h : c.setting = b.setting) : c.firstDelay = b.firstDelay := by
  funext v
  rw [firstDelay, firstDelay, inclusions_congr h]

/-- The walk credits first votes, whatever passes that leave votes alone go before it. -/
lemma hasDelays_walked (ha : fresh net phase preference w = .ok a) (hb : AlikeInVotes a b)
    {credits : List Credit} (hc : processAttestations b = .ok credits c) :
    HasDelays a.firstDelay c := by
  have hzero : ∀ t ∈ b.tallies, t = .zero := hb.tallies ▸ fresh_tallies ha
  obtain ⟨-, -, hwalked, -⟩ := processAttestations_ok (fun t ht => by rw [hzero t ht]; rfl) hc
  intro v t ht
  rw [hwalked.tally, Option.map_eq_some_iff] at ht
  obtain ⟨t₀, ht₀, rfl⟩ := ht
  rw [← firstDelay_congr hb.setting, firstDelay, settle, hzero t₀ (List.mem_of_getElem? ht₀)]
  cases b.inclusions.find? (·.validator = v) with
  | none => rfl
  | some i => rfl

/-- The delays of tallies are part of the poll. -/
lemma HasDelays.congr (h : HasDelays delays c) (hpoll : b.poll = c.poll) : HasDelays delays b := by
  intro v t ht
  have hballots : b.tallies.map (·.ballot) = c.tallies.map (·.ballot) :=
    congrArg Poll.ballots hpoll
  have hballot : (c.tallies.map (·.ballot))[v]? = some t.ballot := by
    rw [← hballots, List.getElem?_map, ht]
    rfl
  rw [List.getElem?_map] at hballot
  obtain ⟨k, hk, hsame⟩ := Option.map_eq_some_iff.1 hballot
  rw [← h v k hk]
  exact (congrArg Prod.fst hsame).symm

/-- The delays of a bundle are those of first votes, and nobody has one in a skipped window. -/
lemma hasDelays_build (h : build net preference w = .ok b) :
    HasDelays (fun v => if w.isRewarded then b.firstDelay v else none) b := by
  cases hr : w.isRewarded with
  | false =>
    obtain ⟨_, hfresh⟩ := fresh_of_skipped (Window.skipped_iff.2 hr) h
    intro v t ht
    rw [fresh_tallies hfresh t (List.mem_of_getElem? ht)]
    rfl
  | true =>
    obtain ⟨_, a, ha, ⟨b₀, credits, d, halike, hd, hpoll⟩, hsetting⟩ := walks_of_build hr h
    rw [firstDelay_congr hsetting]
    exact (hasDelays_walked ha halike hd).congr hpoll

end Bundle

/-- What the delay in a record says, where an epoch has `slots` slots. -/
structure DelayRecorded (w : Window) (slots : Nat) (b : Bundle) (v : ValidatorIndex)
    (rec : ValidatorRecord) : Prop where
  credited : b.delayOf v = if w.isRewarded then b.firstDelay v else none
  never_iff : b.delayOf v = none ↔ w.Skipped ∨ ∀ i ∈ b.inclusions, i.validator ≠ v
  recorded : rec.inclusionDelay = (b.delayOf v).getD (slots + 1)
  /-- one more than an epoch is the delay of no vote, or of one that took as long -/
  fallback_iff : rec.inclusionDelay = slots + 1 ↔
    b.delayOf v = none ∨ b.delayOf v = some (slots + 1)
  /-- votes within an epoch are told from missing ones -/
  within : (∀ i ∈ b.inclusions, i.validator = v → i.delay ≤ slots) →
    (rec.inclusionDelay = slots + 1 ↔ b.delayOf v = none)

namespace Window

open EpochRewards.Bundle

variable {net : Network} {preference : ReportPreference} {w : Window} {b : Bundle}
  {v : ValidatorIndex} {rec : ValidatorRecord}

/-- **What the fallback delay means.** One more than the slots of an epoch is recorded for a
validator without a vote that counts, and for one whose first vote was included after as many
slots. -/
theorem delay_recorded (hb : build net preference w = .ok b) (h : b.resolve v = .ok rec) :
    DelayRecorded w net.slotsPerEpoch.val b v rec := by
  have hfigures := resolve_figures h
  obtain ⟨t, ht, -⟩ := hfigures.tally
  have hcredited : b.delayOf v = if w.isRewarded then b.firstDelay v else none := by
    rw [delayOf, ht]
    exact hasDelays_build hb v t ht
  have hnever : b.delayOf v = none ↔ w.Skipped ∨ ∀ i ∈ b.inclusions, i.validator ≠ v := by
    rw [hcredited, skipped_iff]
    cases w.isRewarded with
    | false => simp
    | true => simp [firstDelay]
  have hrecorded : rec.inclusionDelay = (b.delayOf v).getD (net.slotsPerEpoch.val + 1) := by
    rw [← network_build hb]
    exact inclusionDelay_ok hfigures.delay
  have hfallback : rec.inclusionDelay = net.slotsPerEpoch.val + 1 ↔
      b.delayOf v = none ∨ b.delayOf v = some (net.slotsPerEpoch.val + 1) := by
    rw [hrecorded]
    cases b.delayOf v with
    | none => simp
    | some d => simp
  refine ⟨hcredited, hnever, hrecorded, hfallback, fun hwithin => ?_⟩
  rw [hfallback, or_iff_left]
  intro hlate
  rw [hcredited, firstDelay] at hlate
  split at hlate
  · obtain ⟨i, hi, hdelay⟩ := Option.map_eq_some_iff.1 hlate
    have hv : i.validator = v := by simpa using List.find?_some hi
    exact Nat.not_succ_le_self _ (hdelay ▸ hwithin i (List.mem_of_find?_eq_some hi) hv)
  · cases hlate

/-- A vote that is included in the next epoch after five slots, one more than an epoch has, and a
validator that does not vote. -/
def overdueWindow : Window :=
  let block (slot : Slot) (votes : List (List Bool)) : Block :=
    { Block.missed slot 0 with
      proposed := true
      attestations := votes.map fun bits =>
        ⟨.ofBits bits, ⟨4, 0, .zero, ⟨0, .zero⟩, ⟨1, .zero⟩⟩⟩ }
  let validator : Validator := ⟨.zero, 32, false, 0, 0, farFuture, farFuture⟩
  let snapshot (epoch : Epoch) (blocks : List Block) : Snapshot :=
    { Snapshot.placeholder epoch (4 * epoch + 3) with
      stateRoot := .ofNat 32 1
      validators := [validator, validator]
      balances := [32, 32]
      blockRoots := List.replicate 16 .zero
      blocks
      duties := ⟨[⟨4 * epoch, 0, [0, 1]⟩], []⟩ }
  ⟨snapshot 1 [block 5 []], snapshot 2 [block 9 [[true, false]]], snapshot 3 []⟩

lemma overdueWindow_delays :
    reading .fourSlots .strictlyPositive overdueWindow 0
        (fun b rec => (b.delayOf 0, rec.inclusionDelay)) = some (some 5, 5) ∧
      reading .fourSlots .strictlyPositive overdueWindow 1
        (fun b rec => (b.delayOf 1, rec.inclusionDelay)) = some (none, 5) := by
  constructor
  · cbv
  · cbv

/-- Both records have a delay of five slots. -/
theorem overdueWindow_recorded :
    ∃ b voted absent, build .fourSlots .strictlyPositive overdueWindow = .ok b ∧
      b.resolve 0 = .ok voted ∧ b.resolve 1 = .ok absent ∧
      b.delayOf 0 = some 5 ∧ b.delayOf 1 = none ∧
      DelayRecorded overdueWindow 4 b 0 voted ∧ DelayRecorded overdueWindow 4 b 1 absent := by
  obtain ⟨b, voted, hb, hvoted, hdelay⟩ := exists_of_reading overdueWindow_delays.1
  obtain ⟨c, absent, hc, habsent, hnone⟩ := exists_of_reading overdueWindow_delays.2
  rw [hb] at hc
  cases hc
  rw [Prod.mk.injEq] at hdelay hnone
  exact ⟨b, voted, absent, hb, hvoted, habsent, hdelay.1, hnone.1, delay_recorded hb hvoted,
    delay_recorded hb habsent⟩

/-- The fallback delay does not say that no vote was included. -/
theorem not_only_never_included :
    ¬ ∀ (net : Network) (preference : ReportPreference) (w : Window) (b : Bundle)
      (v : ValidatorIndex) (rec : ValidatorRecord), net.validate = .ok () →
      net.slotsPerEpoch.val < Word.max → build net preference w = .ok b → b.resolve v = .ok rec →
        (rec.inclusionDelay = net.slotsPerEpoch.val + 1 ↔ b.delayOf v = none) := by
  intro hall
  obtain ⟨b, rec, hb, hrec, hdelay⟩ := exists_of_reading overdueWindow_delays.1
  rw [Prod.mk.injEq] at hdelay
  have hnone := (hall _ _ _ b 0 rec rfl (by decide) hb hrec).1 hdelay.2
  rw [hdelay.1] at hnone
  cases hnone

end Window

end EpochRewards
