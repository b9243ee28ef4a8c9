import EpochRewards.Proofs.FirstInclusions
import EpochRewards.Proofs.Settings

/-!
Bundles after runs of the passes.

A bundle may be prepared any number of times, and a run that fails leaves the bundle as it has
reached it. All of this are changes of a fresh bundle.
-/

namespace EpochRewards.Bundle

/-- The bundles of a window that its passes may lead to, run any number of times by either set of
rules, with those left behind by runs that fail. -/
inductive Reached (net : Network) (preference : ReportPreference) (w : Window) : Bundle → Prop
  | phase0 {b : Bundle} (opened : openPhase0 net preference w = .ok b) : Reached net preference w b
  | altair {b : Bundle} (opened : openAltair net preference w = .ok b) : Reached net preference w b
  | prepared {b c : Bundle} (reached : Reached net preference w b) (run : prepare b = .ok () c) :
      Reached net preference w c
  | failed {b c : Bundle} {e : Failure RewardError} (reached : Reached net preference w b)
      (run : prepare b = .error e c) : Reached net preference w c

variable {net : Network} {preference : ReportPreference} {w : Window} {b : Bundle}

lemma reached_of_build (h : build net preference w = .ok b) : Reached net preference w b := by
  have hprepared {a : Bundle} (ha : Reached net preference w a) (hb : a.prepared = .ok b) :
      Reached net preference w b := ha.prepared (prepared_ok.1 hb)
  unfold build at h
  dsimp only at h
  split at h
  · obtain ⟨a, ha, hb⟩ := Calc.bind_ok.1 h
    exact hprepared (.altair (Calc.fault_ok.1 ha)) hb
  · obtain ⟨a, ha, hb⟩ := Calc.bind_ok.1 h
    exact hprepared (.phase0 (Calc.fault_ok.1 ha)) hb

namespace Reached

lemma changes (h : Reached net preference w b) :
    ∃ phase a, fresh net phase preference w = .ok a ∧ a.Changes b := by
  induction h with
  | phase0 opened => exact ⟨_, _, opened, .refl⟩
  | altair opened => exact ⟨_, _, opened, .refl⟩
  | prepared _ run ih =>
    obtain ⟨phase, a, ha, hchanges⟩ := ih
    exact ⟨phase, a, ha, hchanges.trans (makes_prepare.changes_of_ok run)⟩
  | failed _ run ih =>
    obtain ⟨phase, a, ha, hchanges⟩ := ih
    exact ⟨phase, a, ha, hchanges.trans (makes_prepare.changes_of_error run)⟩

lemma window (h : Reached net preference w b) : b.window = w := by
  obtain ⟨_, a, ha, hchanges⟩ := h.changes
  rw [← window_fresh ha]
  exact congrArg Setting.window (setting_changes hchanges)

/-- Every validator of the last registry has a tally, and nobody else. -/
lemma length_tallies (h : Reached net preference w b) :
    b.tallies.length = w.next.validators.length := by
  obtain ⟨_, a, ha, hchanges⟩ := h.changes
  rw [length_tallies_changes hchanges, (fresh_ok ha).2.2.2.1, List.length_map]

end Reached

end EpochRewards.Bundle
