import EpochRewards.Proofs.Counts
import EpochRewards.Proofs.Numerators

/-!
Magnitudes: whole runs of the passes over windows of the size that networks have.

Amounts are checked by the passes themselves, so an overflow is a way for them to fail. Counts are
not, so their bounds are stated beside it.
-/

namespace EpochRewards

open Pass

/-- The counts of a bundle are words. -/
structure Bundle.CountsFit (b : Bundle) : Prop where
  attestations : b.attestationCount < Word.bound
  votes : ∀ s t, b.blockTallies.get? s = some t →
    t.votesIncluded < Word.bound ∧ t.newVotesIncluded < Word.bound

/-- The run succeeds or ends in an error, but in no overflow, and what it has counted is a word. -/
def Pass.StaysInWords (r : EStateM.Result (Failure RewardError) Bundle Unit) : Prop :=
  Meets (fun e c => ¬ e.IsOverflow ∧ c.CountsFit) (fun _ c => c.CountsFit) r

namespace Bundle

variable {net : Network} {w : Window} {b : Bundle} {n : Nat}

lemma Counts.fit (h : b.Counts w n) (hn : n < Word.bound) : b.CountsFit where
  attestations := Nat.lt_of_le_of_lt h.attestations hn
  votes s t ht := ⟨Nat.lt_of_le_of_lt (h.votes s t ht).1 hn,
    Nat.lt_of_le_of_lt (h.votes s t ht).2 hn⟩

lemma counts_fresh {phase : Phase} {preference : ReportPreference}
    (h : fresh net phase preference w = .ok b) : b.Counts w 0 where
  window := window_fresh h
  attestations := by
    simp only [fresh, Calc.bind_ok, Calc.pure_ok] at h
    obtain ⟨_, -, _, -, rfl⟩ := h
    exact Nat.le_refl 0
  votes s t ht := by
    rw [blockTallies_fresh h] at ht
    split at ht
    · cases ht
      exact ⟨Nat.le_refl 0, Nat.le_refl 0⟩
    · cases ht

end Bundle

namespace Window.AtScale

variable {net : Network} {w : Window} {b : Bundle}

lemma staysInWords {pass : Pass Unit} (hw : w.AtScale net) (hb : b.Counts w 0)
    (hraises : Raises w (4 * w.size) pass) (hfits : Fits (fun _ _ => True) (pass b)) :
    StaysInWords (pass b) := by
  have hsize : w.size < 2 ^ 40 + 2 ^ 40 := by
    rw [size_eq]
    exact Nat.add_lt_add hw.attestations hw.votes
  have hword : 0 + 4 * w.size < Word.bound := by
    unfold Word.bound
    omega
  have hcounts := hraises 0 b hb
  cases hr : pass b with
  | ok u c =>
    rw [hr] at hcounts
    exact hcounts.fit hword
  | error e c =>
    rw [hr] at hcounts hfits
    exact ⟨hfits, hcounts.fit hword⟩

/-- **No overflow at the scale of networks.** For a preset with whatever fork epochs, a bundle of
the window can be opened under either set of rules, and no pass over it overflows. -/
theorem no_overflow (hw : w.AtScale net) (hnet : net.IsPreset) (preference : ReportPreference) :
    (∃ b, Bundle.openPhase0 net preference w = .ok b ∧ StaysInWords (Phase0.prepare b)) ∧
      ∃ b, Bundle.openAltair net preference w = .ok b ∧ StaysInWords (Altair.prepare b) := by
  constructor
  · obtain ⟨b, hb, hready, hzero⟩ := Bundle.ready_fresh hw hnet.usual _ preference
    have hfits := Phase0.prepare_fits hnet.usual hw hready hzero
    exact ⟨b, hb, hw.staysInWords (Bundle.counts_fresh hb) Phase0.raises_prepare
      (hfits.mono fun _ _ _ _ => trivial)⟩
  · obtain ⟨b, hb, hready, hzero⟩ := Bundle.ready_fresh hw hnet.usual _ preference
    have hfits := Altair.prepare_fits hnet.usual hw hready hzero
    exact ⟨b, hb, hw.staysInWords (Bundle.counts_fresh hb) Altair.raises_prepare
      (hfits.mono fun _ _ _ _ => trivial)⟩

/-- Three epochs of the minimal preset in which two validators of the largest balance vote in every
slot, hold the seats of the committee and are reported in every block. -/
def largestBalances : Window :=
  let vote (slot : Slot) : VoteData := ⟨slot, 0, .zero, ⟨0, .zero⟩, ⟨slot / 8, .zero⟩⟩
  let block (slot : Slot) : Block :=
    { Block.missed slot 0 with
      proposed := true
      attestations := [⟨.ofBits [true, true], vote (slot - 1)⟩]
      syncAggregate := some ⟨.ofBits [true, true]⟩
      proposerSlashings := [⟨⟨slot, 1⟩, ⟨slot, 1⟩⟩] }
  let validator : Validator := ⟨.zero, 2048 * 10 ^ 9, false, 0, 0, farFuture, farFuture⟩
  let snapshot (epoch : Epoch) : Snapshot :=
    let slots := List.range' (8 * epoch) 8
    { Snapshot.placeholder epoch (8 * epoch + 7) with
      stateRoot := .ofNat 32 1
      validators := [validator, validator]
      balances := [2048 * 10 ^ 9, 2048 * 10 ^ 9]
      blockRoots := List.replicate 64 .zero
      syncCommittee := some ⟨[.zero, .zero]⟩
      blocks := slots.map block
      duties := ⟨slots.map (⟨·, 0, [0, 1]⟩), []⟩ }
  ⟨snapshot 1, snapshot 2, snapshot 3⟩

theorem largestBalances_no_overflow :
    largestBalances.AtScale { Network.minimal with altairEpoch := 0 } ∧
      { Network.minimal with altairEpoch := 0 }.IsPreset ∧
      (∃ b, Bundle.openPhase0 { Network.minimal with altairEpoch := 0 } .strictlyPositive
          largestBalances = .ok b ∧ StaysInWords (Phase0.prepare b)) ∧
        ∃ b, Bundle.openAltair { Network.minimal with altairEpoch := 0 } .strictlyPositive
          largestBalances = .ok b ∧ StaysInWords (Altair.prepare b) := by
  have hscale : largestBalances.AtScale { Network.minimal with altairEpoch := 0 } := by
    constructor
    all_goals decide
  have hpreset : { Network.minimal with altairEpoch := 0 }.IsPreset :=
    ⟨.minimal, by simp [Network.presets], rfl⟩
  exact ⟨hscale, hpreset, hscale.no_overflow hpreset .strictlyPositive⟩

end Window.AtScale

end EpochRewards
