import EpochRewards.Proofs.Changes

/-!
What the passes leave alone: the window and all that a bundle has of it before the first pass.
-/

namespace EpochRewards

/-- The part of a bundle that is no figure. -/
structure Setting where
  network : Network
  phase : Phase
  preference : ReportPreference
  window : Window
  currentActiveBalance : Gwei
  nextActiveBalance : Gwei

def Bundle.setting (b : Bundle) : Setting :=
  ⟨b.network, b.phase, b.preference, b.window, b.currentActiveBalance, b.nextActiveBalance⟩

lemma Bundle.setting_eq_iff {b c : Bundle} : c.setting = b.setting ↔
    c.network = b.network ∧ c.phase = b.phase ∧ c.preference = b.preference ∧
      c.window = b.window ∧ c.currentActiveBalance = b.currentActiveBalance ∧
        c.nextActiveBalance = b.nextActiveBalance := by
  rw [setting, setting, Setting.mk.injEq]

namespace Phase

lemma later_altair {p : Phase} (h : p.usesParticipationFlags = true) : p.later .altair = p := by
  cases p with
  | phase0 => cases h
  | _ => rfl

lemma eq_phase0 {p : Phase} (h : ¬ p.usesParticipationFlags = true) : p = .phase0 := by
  cases p with
  | phase0 => rfl
  | _ => exact absurd rfl h

end Phase

namespace Bundle

open Pass

/-- No change is one of the setting. -/
lemma Change.setting {b c : Bundle} (h : b.Change c) : c.setting = b.setting := by
  cases h <;> rfl

lemma Change.length_tallies {b c : Bundle} (h : b.Change c) :
    c.tallies.length = b.tallies.length := by
  cases h with
  | maximum tally amount => exact List.length_set
  | credit tally unseen delay ordered => exact List.length_set
  | _ => rfl

lemma setting_changes {b c : Bundle} (h : b.Changes c) : c.setting = b.setting := by
  induction h with
  | refl => rfl
  | tail _ hstep ih => exact hstep.setting.trans ih

/-- Nobody gets a tally or loses one. -/
lemma length_tallies_changes {b c : Bundle} (h : b.Changes c) :
    c.tallies.length = b.tallies.length := by
  induction h with
  | refl => rfl
  | tail _ hstep ih => exact hstep.length_tallies.trans ih

/-- The passes are those of the rules that the bundle is accounted by. -/
lemma prepare_eq (b : Bundle) : prepare b
    = if b.phase.usesParticipationFlags then Altair.prepare b else Phase0.prepare b := by
  show (if b.phase.usesParticipationFlags then Altair.prepare else Phase0.prepare) b = _
  split <;> rfl

lemma prepared_ok {b c : Bundle} : b.prepared = .ok c ↔ prepare b = .ok () c := by
  have hrun : prepare.run b = prepare b := rfl
  rw [prepared, hrun]
  cases prepare b with
  | ok u d => simp
  | error e d => simp

lemma changes_prepared {b c : Bundle} (h : b.prepared = .ok c) : b.Changes c :=
  makes_prepare.changes_of_ok (prepared_ok.1 h)

lemma setting_prepared {b c : Bundle} (h : b.prepared = .ok c) : c.setting = b.setting :=
  setting_changes (changes_prepared h)

/-- No validator is listed twice. -/
lemma nodup_analysedValidators (b : Bundle) : b.analysedValidators.Nodup := by
  have hzip : (b.window.next.validators.zipIdx.map (·.2)).Nodup := by
    rw [List.zipIdx_map_snd]
    exact List.nodup_range'
  exact hzip.sublist (List.filter_sublist.map _)

lemma window_fresh {net : Network} {phase : Phase} {preference : ReportPreference} {w : Window}
    {b : Bundle} (h : fresh net phase preference w = .ok b) : b.window = w := by
  simp only [fresh, Calc.bind_ok, Calc.pure_ok] at h
  obtain ⟨_, -, _, -, rfl⟩ := h
  rfl

lemma network_fresh {net : Network} {phase : Phase} {preference : ReportPreference} {w : Window}
    {b : Bundle} (h : fresh net phase preference w = .ok b) : b.network = net := by
  simp only [fresh, Calc.bind_ok, Calc.pure_ok] at h
  obtain ⟨_, -, _, -, rfl⟩ := h
  rfl

lemma phase_fresh {net : Network} {phase : Phase} {preference : ReportPreference} {w : Window}
    {b : Bundle} (h : fresh net phase preference w = .ok b) : b.phase = phase := by
  simp only [fresh, Calc.bind_ok, Calc.pure_ok] at h
  obtain ⟨_, -, _, -, rfl⟩ := h
  rfl

/-- Whichever rules are chosen, they are opened with the phase in force. -/
lemma build_eq (net : Network) (preference : ReportPreference) (w : Window) :
    build net preference w = (do
      let b ← fresh net (net.phaseAt w.current.epoch) preference w
      b.prepared) := by
  unfold build
  dsimp only
  split
  · next h => rw [openAltair, Phase.later_altair h]
  · next h => rw [openPhase0, Phase.eq_phase0 h]

/-- A bundle is what the passes make of a fresh one. -/
lemma exists_fresh_of_build {net : Network} {preference : ReportPreference} {w : Window}
    {c : Bundle} (h : build net preference w = .ok c) :
    ∃ b, fresh net (net.phaseAt w.current.epoch) preference w = .ok b ∧ b.prepared = .ok c := by
  rw [build_eq, Calc.bind_ok] at h
  obtain ⟨b, hb, hc⟩ := h
  exact ⟨b, Calc.fault_ok.1 hb, hc⟩

/-- A bundle is about the window that it is built for. -/
theorem window_build {net : Network} {preference : ReportPreference} {w : Window} {b : Bundle}
    (h : build net preference w = .ok b) : b.window = w := by
  obtain ⟨c, hc, hb⟩ := exists_fresh_of_build h
  rw [← window_fresh hc]
  exact congrArg Setting.window (setting_prepared hb)

/-- A bundle is computed with the constants that it is built with. -/
lemma network_build {net : Network} {preference : ReportPreference} {w : Window} {b : Bundle}
    (h : build net preference w = .ok b) : b.network = net := by
  obtain ⟨c, hc, hb⟩ := exists_fresh_of_build h
  rw [← network_fresh hc]
  exact congrArg Setting.network (setting_prepared hb)

/-- A bundle is accounted by the rules of its current epoch. -/
lemma phase_build {net : Network} {preference : ReportPreference} {w : Window} {b : Bundle}
    (h : build net preference w = .ok b) : b.phase = net.phaseAt w.current.epoch := by
  obtain ⟨c, hc, hb⟩ := exists_fresh_of_build h
  rw [← phase_fresh hc]
  exact congrArg Setting.phase (setting_prepared hb)

end Bundle

end EpochRewards
