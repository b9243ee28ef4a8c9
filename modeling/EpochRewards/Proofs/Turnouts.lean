import EpochRewards.Proofs.Polls
import Mathlib

/-!
Turnouts in epoch summaries.

A summary sets the balance behind target flags against the active balance of the first epoch. The
passes take the one from the second snapshot of the window, the summary takes the other from the
first, and effective balances may grow in between. So the ratio of both may exceed one, by no more
than what the balances of the voters have grown.
-/

namespace EpochRewards

/-- All committee members of the first snapshot are active in it. -/
def Window.MembersActive (w : Window) : Prop :=
  ∀ committee ∈ w.prev.duties.committees, ∀ v ∈ committee.members,
    w.prev.IsActive w.prev.epoch v

/-- The validators whose votes have earned the target flag; none of a skipped window. -/
def Bundle.targetVoters (b : Bundle) : List ValidatorIndex :=
  if b.window.isRewarded then b.earners .target else []

/-- By how much effective balances have grown from the first snapshot to the second. -/
def Window.growth (w : Window) (vs : List ValidatorIndex) : Gwei :=
  (vs.map fun v => w.current.effectiveBalanceOf v - w.prev.effectiveBalanceOf v).sum

namespace Window

variable {net : Network} {preference : ReportPreference} {w : Window} {b : Bundle}
  {s : EpochSummary} {vs : List ValidatorIndex}

lemma sum_le_growth (w : Window) (vs : List ValidatorIndex) :
    (vs.map w.current.effectiveBalanceOf).sum
      ≤ (vs.map w.prev.effectiveBalanceOf).sum + w.growth vs := by
  rw [growth, ← List.sum_map_add]
  exact List.sum_le_sum fun v _ => le_add_tsub

lemma growth_eq_zero (h : ∀ v ∈ vs, w.current.effectiveBalanceOf v ≤ w.prev.effectiveBalanceOf v) :
    w.growth vs = 0 := by
  rw [growth, List.sum_eq_zero_iff]
  intro n hn
  obtain ⟨v, hv, rfl⟩ := List.mem_map.1 hn
  exact Nat.sub_eq_zero_of_le (h v hv)

lemma nodup_targetVoters (b : Bundle) : b.targetVoters.Nodup := by
  unfold Bundle.targetVoters
  split
  · exact b.nodup_earners .target
  · exact .nil

lemma active_of_mem_targetVoters (hactive : b.window.MembersActive) {v : ValidatorIndex}
    (hv : v ∈ b.targetVoters) : b.window.prev.IsActive b.window.prev.epoch v := by
  unfold Bundle.targetVoters at hv
  split at hv
  · obtain ⟨committee, hc, hmember⟩ := Bundle.committee_of_mem_earners hv
    exact hactive committee hc v hmember
  · cases hv

/-- The balance behind target flags is that of the voters in the second snapshot. -/
lemma attestingTarget_build (h : Bundle.build net preference w = .ok b) :
    b.attestingBalance.target = (b.targetVoters.map w.current.effectiveBalanceOf).sum := by
  change b.attestingBalance.get .target = _
  rw [Bundle.attesting_build h, Bundle.targetVoters, Bundle.window_build h]
  split
  · rw [Bundle.earnedBalance_eq, Bundle.window_build h]
  · rfl

/-- What the summary `s` says about the balance behind the target flags of `voters`. -/
structure Turnout (net : Network) (w : Window) (voters : List ValidatorIndex) (s : EpochSummary) :
    Prop where
  distinct : voters.Nodup
  active : ∀ v ∈ voters, w.prev.IsActive w.prev.epoch v
  /-- the voters' balances in the second snapshot -/
  attesting : s.attestingTargetBalance = (voters.map w.current.effectiveBalanceOf).sum
  /-- all active balances in the first snapshot -/
  total : s.totalEffectiveBalance
    = max ((w.prev.activeIndices w.prev.epoch).map w.prev.effectiveBalanceOf).sum
        net.balanceIncrement.val
  /-- by the balances of the first snapshot no more than all have voted -/
  part : (voters.map w.prev.effectiveBalanceOf).sum ≤ s.totalEffectiveBalance
  excess : s.attestingTargetBalance ≤ s.totalEffectiveBalance + w.growth voters
  ratio : (∀ v ∈ voters, w.current.effectiveBalanceOf v ≤ w.prev.effectiveBalanceOf v) →
    s.attestingTargetBalance ≤ s.totalEffectiveBalance

/-- **How far a turnout may exceed one.** Where committee members are active, the balance behind
target flags is no more than the active balance and what the balances of the voters have grown by
from one snapshot to the next. -/
theorem turnout_bounded (hactive : w.MembersActive) (hb : Bundle.build net preference w = .ok b)
    (hs : b.epochSummary = .ok s) : Turnout net w b.targetVoters s := by
  have hwindow := Bundle.window_build hb
  have hvoters : ∀ v ∈ b.targetVoters, w.prev.IsActive w.prev.epoch v := by
    rw [← hwindow] at hactive ⊢
    exact fun v hv => active_of_mem_targetVoters hactive hv
  simp only [Bundle.epochSummary, Calc.bind_ok, Calc.pure_ok, Bundle.network_build hb, hwindow] at hs
  obtain ⟨_, -, total, htotal, rfl⟩ := hs
  have hattesting := attestingTarget_build hb
  have hpart : (b.targetVoters.map w.prev.effectiveBalanceOf).sum ≤ total :=
    Snapshot.sum_le_activeBalance htotal (nodup_targetVoters b) hvoters
  have hexcess : b.attestingBalance.target ≤ total + w.growth b.targetVoters := by
    rw [hattesting]
    exact (sum_le_growth w _).trans (Nat.add_le_add_right hpart _)
  refine ⟨nodup_targetVoters b, hvoters, hattesting, Snapshot.activeBalance_ok htotal, hpart,
    hexcess, fun hgrowth => ?_⟩
  rwa [growth_eq_zero hgrowth] at hexcess

/-- Both validators vote, and the effective balance of the first has grown by one increment when
the second snapshot is taken. -/
def growingWindow : Window :=
  let validator (effective : Gwei) : Validator :=
    ⟨.zero, effective, false, 0, 0, farFuture, farFuture⟩
  let snapshot (epoch : Epoch) (effective : Gwei) (blocks : List Block) : Snapshot :=
    { Snapshot.placeholder epoch (4 * epoch + 3) with
      stateRoot := .ofNat 32 1
      validators := [validator effective, validator 32]
      balances := [32, 32]
      blockRoots := List.replicate 16 .zero
      blocks
      duties := ⟨[⟨4 * epoch, 0, [0, 1]⟩], []⟩ }
  let block : Block :=
    { Block.missed 5 0 with
      proposed := true
      attestations := [⟨.ofBits [true, true], ⟨4, 0, .zero, ⟨0, .zero⟩, ⟨1, .zero⟩⟩⟩] }
  ⟨snapshot 1 31 [block], snapshot 2 32 [], snapshot 3 32 []⟩

lemma membersActive_growingWindow : growingWindow.MembersActive := by
  have hmembers : ∀ committee ∈ growingWindow.prev.duties.committees, ∀ v ∈ committee.members,
      v ∈ growingWindow.prev.activeIndices growingWindow.prev.epoch := by decide
  exact fun committee hc v hv => Snapshot.mem_activeIndices.1 (hmembers committee hc v hv)

lemma growingWindow_summary :
    Bundle.summaryReading .fourSlots .strictlyPositive growingWindow
        (fun b s => (b.targetVoters, s.attestingTargetBalance, s.totalEffectiveBalance))
      = some ([0, 1], 64, 63) := by
  cbv

/-- Sixty-four units have voted, of sixty-three that are active. -/
theorem growingWindow_turnout :
    growingWindow.MembersActive ∧ ∃ b s,
      Bundle.build .fourSlots .strictlyPositive growingWindow = .ok b ∧ b.epochSummary = .ok s ∧
      s.attestingTargetBalance = 64 ∧ s.totalEffectiveBalance = 63 ∧
      Turnout .fourSlots growingWindow b.targetVoters s := by
  obtain ⟨b, s, hb, hs, hread⟩ := Bundle.exists_of_summaryReading growingWindow_summary
  simp only [Prod.mk.injEq] at hread
  exact ⟨membersActive_growingWindow, b, s, hb, hs, hread.2.1, hread.2.2,
    turnout_bounded membersActive_growingWindow hb hs⟩

/-- The balance behind target flags may be more than the active balance. -/
theorem not_at_most_active :
    ¬ ∀ (net : Network) (preference : ReportPreference) (w : Window) (b : Bundle)
      (s : EpochSummary), net.validate = .ok () → w.MembersActive →
      Bundle.build net preference w = .ok b → b.epochSummary = .ok s →
        s.attestingTargetBalance ≤ s.totalEffectiveBalance := by
  intro hall
  obtain ⟨b, s, hb, hs, hread⟩ := Bundle.exists_of_summaryReading growingWindow_summary
  simp only [Prod.mk.injEq] at hread
  have hle := hall _ _ _ b s rfl membersActive_growingWindow hb hs
  rw [hread.2.1, hread.2.2] at hle
  exact absurd hle (by decide)

end Window

end EpochRewards
