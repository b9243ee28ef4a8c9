import EpochRewards.Proofs.Preferences

/-!
Windows without rewards.

No pass runs over a window that starts before genesis or in which genesis is current. Its bundle
stays as it was opened, so a record has nothing that was computed; but records still add up what is
reported for the blocks that they read.
-/

namespace EpochRewards

/-- An epoch before genesis is among the first two, or genesis is current. -/
def Window.Skipped (w : Window) : Prop :=
  w.prev.isPlaceholder = true ∨ w.current.isPlaceholder = true ∨ w.current.epoch = 0

lemma Window.skipped_iff {w : Window} : w.Skipped ↔ w.isRewarded = false := by
  unfold Skipped isRewarded
  cases w.prev.isPlaceholder <;> cases w.current.isPlaceholder <;> simp

namespace Bundle

variable {net : Network} {phase : Phase} {preference : ReportPreference} {w : Window}
  {b : Bundle}

/-- No pass changes anything. -/
lemma prepare_of_skipped (h : b.window.Skipped) : prepare b = .ok () b := by
  rw [Window.skipped_iff] at h
  have hphase0 : Phase0.prepare b = .ok () b := by
    show (if b.window.isRewarded then _ else pure () : Pass Unit) b = _
    rw [h]
    rfl
  have haltair : Altair.prepare b = .ok () b := by
    show (if b.window.isRewarded then _ else pure () : Pass Unit) b = _
    rw [h]
    rfl
  rw [prepare_eq]
  split
  · exact haltair
  · exact hphase0

lemma fresh_of_skipped (hw : w.Skipped) (h : build net preference w = .ok b) :
    ∃ phase, fresh net phase preference w = .ok b := by
  obtain ⟨c, hc, hb⟩ := exists_fresh_of_build h
  have hskipped : c.window.Skipped := by rwa [window_fresh hc]
  rw [prepared_ok, prepare_of_skipped hskipped] at hb
  cases hb
  exact ⟨_, hc⟩

/-- Nothing was computed for any proposal. -/
lemma manualOn_fresh (h : fresh net phase preference w = .ok b) (v : ValidatorIndex)
    (blocks : List Block) : b.manualOn v blocks = 0 := by
  rw [(balanced_fresh h).each, (fresh_ledgers h).1]
  rfl

end Bundle

/-- A preference between reports and nothing. -/
lemma ReportPreference.resolve_zero (p : ReportPreference) (reported : Option Gwei) :
    p.resolve reported 0 = reported.getD 0 := by
  rw [resolve_eq]
  split
  · rfl
  · next h => rw [getD_of_not_prefers (Bool.eq_false_iff.2 h)]

/-- What the record of a skipped window says: the reports `reports` and otherwise nothing. -/
structure SkippedRecord (net : Network) (w : Window) (reports : List Gwei)
    (rec : ValidatorRecord) : Prop where
  attestation : rec.attestationReward = 0
  sync : rec.syncReward = 0 ∧ rec.inSyncCommittee = false
  slashing : rec.slashingReward = 0
  computed : rec.computedProposerReward = 0
  missing : rec.missingSource = true ∧ rec.missingTarget = true ∧ rec.missingHead = true
  delay : rec.inclusionDelay = net.slotsPerEpoch.val + 1
  proposer : rec.proposerReward = reports.sum
  max : rec.maxReward = reports.sum
  unreported : rec.maxReward = 0 ↔ ∀ r ∈ reports, r = 0
  reward : w.current.isPlaceholder = true → rec.reward = 0

namespace Window

open EpochRewards.Bundle

variable {net : Network} {preference : ReportPreference} {w : Window} {b : Bundle}
  {v : ValidatorIndex} {rec : ValidatorRecord}

/-- **Skipped windows have no rewards but reported ones.** Whatever else the snapshots hold, a
record has no component, no flag and no delay, and its maximum is what is reported for the proposals
of the validator. -/
theorem skipped_record (hw : w.Skipped) (hb : build net preference w = .ok b)
    (h : b.resolve v = .ok rec) :
    SkippedRecord net w (reportsOn v ((w.reported net).flatMap (·.blocks))) rec := by
  obtain ⟨phase, hfresh⟩ := fresh_of_skipped hw hb
  have hfigures := resolve_figures h
  obtain ⟨hnet, -, hwindow, -⟩ := fresh_ok hfresh
  obtain ⟨-, hslashings, hseats⟩ := fresh_ledgers hfresh
  obtain ⟨t, ht, hattestation, hsource, htarget, hhead⟩ := hfigures.tally
  have hzero : t = .zero := fresh_tallies hfresh t (List.mem_of_getElem? ht)
  have hsync : rec.syncReward = 0 := by
    rw [hfigures.sync, hseats]
    exact ite_self 0
  have hseated : rec.inSyncCommittee = false := by
    rw [hfigures.seated, hseats]
    exact Bool.and_false _
  have hslashing : rec.slashingReward = 0 := by
    rw [hfigures.slashing, hslashings]
    rfl
  have hcomputed : rec.computedProposerReward = 0 :=
    (computed_addProposerRewards hfigures.proposals).trans
      ((Nat.zero_add _).trans (manualOn_fresh hfresh v b.visited))
  have hproposer : rec.proposerReward
      = (reportsOn v ((w.reported net).flatMap (·.blocks))).sum := by
    rw [hfigures.proposer, hcomputed, ReportPreference.resolve_zero, reported_of_build hb h,
      ReportPreference.getD_reportedTotal]
  have hmax : rec.maxReward = (reportsOn v ((w.reported net).flatMap (·.blocks))).sum := by
    rw [hfigures.max, hattestation, hzero, hsync, hslashing, hproposer]
    exact Nat.zero_add _
  have hdelay : rec.inclusionDelay = net.slotsPerEpoch.val + 1 := by
    rw [inclusionDelay_ok hfigures.delay, delayOf, ht, hzero, hnet]
    rfl
  refine ⟨by rw [hattestation, hzero]; rfl, ⟨hsync, hseated⟩, hslashing, hcomputed,
    by rw [hsource, htarget, hhead, hzero]; exact ⟨rfl, rfl, rfl⟩, hdelay, hproposer, hmax,
    by rw [hmax, List.sum_eq_zero_iff], fun hplaceholder => ?_⟩
  have hreward := hfigures.reward
  rw [epochReward, hwindow, hplaceholder] at hreward
  simp only [Calc.bind_ok, if_pos, Calc.pure_ok] at hreward
  obtain ⟨_, -, hreward⟩ := hreward
  exact hreward.symm

/-- The first window of a run from genesis. The block of slot 5 includes a vote and a slashing
report and has a reward reported. -/
def firstWindow : Window :=
  let validator : Validator := ⟨.ofNat 48 1, 4096, false, 0, 0, farFuture, farFuture⟩
  let data : VoteData := ⟨4, 0, .zero, ⟨0, .zero⟩, ⟨1, .zero⟩⟩
  let block : Block :=
    { Block.missed 5 0 with
      proposed := true
      attestations := [⟨.ofBits [true, true], data⟩]
      proposerSlashings := [⟨⟨4, 1⟩, ⟨4, 1⟩⟩]
      report := some ⟨100, 100, 0, 0, 0⟩ }
  let snapshot (epoch : Epoch) (blocks : List Block) : Snapshot :=
    { Snapshot.placeholder epoch (4 * epoch + 3) with
      stateRoot := .ofNat 32 1
      validators := [validator, validator]
      balances := [4096, 4096]
      blockRoots := List.replicate 16 .zero
      syncCommittee := some ⟨[.ofNat 48 1]⟩
      blocks
      duties := ⟨[⟨4 * epoch, 0, [0, 1]⟩], []⟩ }
  ⟨.placeholder 0 0, snapshot 0 [], snapshot 1 [block]⟩

/-- Epochs of four slots with participation flags from genesis on. -/
def flaggedSlots : Network := { Network.fourSlots with altairEpoch := 0 }

lemma firstWindow_rewards :
    reading flaggedSlots .strictlyPositive firstWindow 0
        (fun _ rec => (rec.maxReward, rec.slashingReward, rec.inclusionDelay))
      = some (100, 0, 5) := by
  decide +kernel

/-- The record has the reported reward and nothing for the report about validator 1. -/
theorem firstWindow_skipped :
    firstWindow.Skipped ∧ ∃ b rec, build flaggedSlots .strictlyPositive firstWindow = .ok b ∧
      b.resolve 0 = .ok rec ∧ rec.maxReward = 100 ∧
        SkippedRecord flaggedSlots firstWindow
          (reportsOn 0 ((firstWindow.reported flaggedSlots).flatMap (·.blocks))) rec := by
  have hskipped : firstWindow.Skipped := .inl rfl
  obtain ⟨b, rec, hb, hrec, hrewards⟩ := exists_of_reading firstWindow_rewards
  rw [Prod.mk.injEq] at hrewards
  exact ⟨hskipped, b, rec, hb, hrec, hrewards.1, skipped_record hskipped hb hrec⟩

/-- Skipped windows may have rewards. -/
theorem not_without_rewards :
    ¬ ∀ (net : Network) (preference : ReportPreference) (w : Window) (b : Bundle)
      (v : ValidatorIndex) (rec : ValidatorRecord), net.validate = .ok () → w.Skipped →
      build net preference w = .ok b → b.resolve v = .ok rec → rec.maxReward = 0 := by
  intro hall
  obtain ⟨b, rec, hb, hrec, hrewards⟩ := exists_of_reading firstWindow_rewards
  rw [Prod.mk.injEq] at hrewards
  have hzero := hall _ _ _ b 0 rec rfl (.inl rfl) hb hrec
  rw [hrewards.1] at hzero
  cases hzero

end Window

end EpochRewards
