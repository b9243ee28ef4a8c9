import EpochRewards.Proofs.Balances
import EpochRewards.Proofs.Books
import EpochRewards.Proofs.Numerators

/-!
Totals: the figures of a record add up to a word at the scale of networks.

The passes leave figures of four kinds, each with a ceiling of its own, and a record adds one of
each. What blocks report and what is withdrawn comes from outside and has to be of that size too.
-/

namespace EpochRewards

open Pass

/-- What the blocks of a window report and pay out is of the size that networks have, and each of
them has a slot of its own. -/
structure Window.StatedAtScale (w : Window) : Prop where
  slots : (w.blocks.map (·.slot)).Nodup
  reported : ∀ v, (reportsOn v w.blocks).sum ≤ 5 * 2 ^ 59
  withdrawn : ∀ v, withdrawnIn w.next.blocks v < Word.bound

namespace Bundle

variable {net : Network} {w : Window} {b : Bundle} {v : ValidatorIndex} {read : List Block}
  {preference : ReportPreference}

/-! ### Bundles -/

/-- A bundle can be opened, and no pass over it overflows. -/
lemma fits_build (hw : w.AtScale net) (hnet : net.Usual) (preference : ReportPreference) :
    Calc.Errs (fun e => ¬ e.IsOverflow) (build net preference w) ∧
      ∀ c, build net preference w = .ok c → c.Contained net w := by
  obtain ⟨b, hb, hready, hzero⟩ := ready_fresh hw hnet (net.phaseAt w.current.epoch) preference
  have hfits : Fits (fun _ c => c.Contained net w) (prepare b) := by
    refine .get_bind ?_
    split
    · exact Altair.prepare_fits hnet hw hready hzero
    · exact Phase0.prepare_fits hnet hw hready hzero
  have hbuild : build net preference w = b.prepared := by
    rw [build_eq, hb]
    rfl
  rw [hbuild]
  refine ⟨errs_prepared (hfits.mono fun _ _ _ _ => trivial), fun c hc => ?_⟩
  rwa [prepared_ok.1 hc] at hfits

/-- The books of a bundle that was built, over the blocks that its records read. -/
lemma balanced_build (hslots : (w.blocks.map (·.slot)).Nodup)
    (h : build net preference w = .ok b) : Balanced w b.visited b := by
  obtain ⟨a, ha, hprepared⟩ := exists_fresh_of_build h
  have hphase : b.phase = a.phase := congrArg Setting.phase (setting_prepared hprepared)
  rw [prepared_ok, prepare_eq] at hprepared
  rw [visited, hphase, window_build h]
  split at hprepared
  · next hflags =>
    rw [if_pos hflags]
    exact (upholds_altair (slots_next hslots) (balanced_fresh ha) hprepared).1
  · next hflags =>
    rw [if_neg hflags]
    exact (upholds_phase0 (slots_blocksBeforeNext hslots) (balanced_fresh ha) hprepared).1

/-! ### Records -/

lemma sum_reportsOn_le {blocks : List Block} (h : read.Sublist blocks) (v : ValidatorIndex) :
    (reportsOn v read).sum ≤ (reportsOn v blocks).sum :=
  ((h.filter _).filterMap _).sum_le_sum fun _ _ => Nat.zero_le _

/-- What a record takes as the reward of a proposer, whichever figure is preferred. -/
lemma resolve_le {p : ReportPreference} {reported : Option Gwei} {computed m : Gwei}
    (hreported : reported.getD 0 ≤ m) (hcomputed : computed ≤ m) :
    p.resolve reported computed ≤ m := by
  unfold ReportPreference.resolve
  split
  · split
    · exact hcomputed
    · exact hreported
  · exact hreported
  · exact hcomputed

lemma epochReward_fits (hwithdrawn : withdrawnIn b.window.next.blocks v < Word.bound) :
    Calc.Errs (fun e => ¬ e.IsOverflow) (b.epochReward v) := by
  have hsigned (delta : Int) : Calc.Errs (fun e => ¬ e.IsOverflow) (signed? delta) := by
    unfold signed?
    split
    · exact .ok _
    · rintro _ ⟨⟩
      exact id
  have hsum : withdrawn b.window v = .ok (withdrawnIn b.window.next.blocks v) :=
    Word.sum_eq hwithdrawn
  refine .bind (.orFail fun _ => id) fun after _ => ?_
  split
  · exact .ok _
  · exact .known_bind hsum (hsigned _)

lemma inclusionDelay_fits (hnet : net.Usual) (hb : b.network = net) (v : ValidatorIndex) :
    Calc.Errs (fun f => ¬ f.IsOverflow) (b.inclusionDelay v) := by
  have hepoch := hnet.epoch
  unfold inclusionDelay
  split
  · exact .ok _
  · refine Word.errs_add_of_lt ?_
    rw [hb]
    unfold Word.bound
    omega

/-- One figure of each kind. -/
lemma record_fits {c : RewardComponents} (hnet : net.Usual) (hb : b.Contained net w)
    (hwithdrawn : withdrawnIn w.next.blocks v < Word.bound) (hsync : c.sync ≤ 2 ^ 63)
    (hreported : c.reportedProposer.getD 0 ≤ 5 * 2 ^ 59)
    (hcomputed : c.computedProposer ≤ 5 * 2 ^ 59) (hslashing : c.slashing ≤ 2 ^ 62) :
    Calc.Errs (fun e => ¬ e.IsOverflow) (b.record v c) := by
  have hproposer : b.preference.resolve c.reportedProposer c.computedProposer ≤ 5 * 2 ^ 59 :=
    resolve_le hreported hcomputed
  have hroom (attester sync proposer slashing : Nat) (ha : attester ≤ 2 ^ 59) (hs : sync ≤ 2 ^ 63)
      (hp : proposer ≤ 5 * 2 ^ 59) (hl : slashing ≤ 2 ^ 62) :
      attester + sync < Word.bound ∧ attester + sync + proposer < Word.bound ∧
        attester + sync + proposer + slashing < Word.bound := by
    unfold Word.bound
    omega
  refine .bind (.orFail fun _ => id) fun t ht => .bind (.orFail fun _ => id) fun _ _ => ?_
  rw [tally, Calc.orFail_ok] at ht
  obtain ⟨hfirst, hsecond, hthird⟩ := hroom _ _ _ _ (hb.attester v t ht) hsync hproposer hslashing
  refine .known_bind (Word.add_eq hfirst) (.known_bind (Word.add_eq hsecond)
    (.known_bind (Word.add_eq hthird) (.bind (epochReward_fits ?_) fun _ _ =>
      .bind (.fault (inclusionDelay_fits hnet hb.scaled.network v)) fun _ _ => .ok _)))
  rwa [hb.scaled.window]

/-- A record reads what is booked and what is reported on some blocks of the window. -/
lemma proposerRewards_fits (hb : b.Contained net w) (hstated : w.StatedAtScale)
    (hbalanced : Balanced w read b) (hread : read.Sublist w.blocks) (v : ValidatorIndex) :
    ∃ reported computed, b.proposerRewards v read = .ok (reported, computed) ∧
      reported.getD 0 ≤ 5 * 2 ^ 59 ∧ computed ≤ 5 * 2 ^ 59 := by
  have hle := Nat.le_trans (sum_reportsOn_le hread v) (hstated.reported v)
  have hword := Nat.lt_of_le_of_lt hle (show 5 * 2 ^ 59 < Word.bound by norm_num [Word.bound])
  refine ⟨_, _, hbalanced.proposerRewards hword, ?_, hb.proposer v⟩
  unfold reportedTotal
  split
  · exact Nat.zero_le _
  · exact hle

end Bundle

open EpochRewards.Bundle

variable {net : Network} {w : Window} {b : Bundle} {v : ValidatorIndex}

lemma Altair.record_fits (hw : w.AtScale net) (hnet : net.Usual) (hstated : w.StatedAtScale)
    (hb : b.Contained net w) (hbalanced : Balanced w w.next.blocks b) (v : ValidatorIndex) :
    Calc.Errs (fun e => ¬ e.IsOverflow) (Altair.record b v) := by
  obtain ⟨reported, computed, hproposer, hreported, hcomputed⟩ :=
    proposerRewards_fits hb hstated hbalanced (sublist_next w) v
  rw [← hb.scaled.window] at hproposer
  obtain ⟨hbase, -⟩ := Altair.baseReward_fits hnet hw hb.scaled v
  refine .bind (.orFail fun _ => id) fun t _ => .known_bind hproposer ?_
  dsimp only
  split
  · exact .bind (.ok _) fun base _ => Bundle.record_fits hnet hb (hstated.withdrawn v)
      (hb.sync v) hreported hcomputed (hb.slashing v)
  · exact hbase.bind fun base _ => Bundle.record_fits hnet hb (hstated.withdrawn v)
      (hb.sync v) hreported hcomputed (hb.slashing v)

lemma Phase0.record_fits (hw : w.AtScale net) (hnet : net.Usual) (hstated : w.StatedAtScale)
    (hb : b.Contained net w) (hbalanced : Balanced w w.blocksBeforeNext b) (v : ValidatorIndex) :
    Calc.Errs (fun e => ¬ e.IsOverflow) (Phase0.record b v) := by
  obtain ⟨reported, computed, hproposer, hreported, hcomputed⟩ :=
    proposerRewards_fits hb hstated hbalanced (sublist_blocksBeforeNext w) v
  rw [← hb.scaled.window] at hproposer
  obtain ⟨hbase, -⟩ := Phase0.baseReward_fits hnet hw hb.scaled v
  refine .bind (.orFail fun _ => id) fun t _ => .known_bind hproposer ?_
  dsimp only
  split
  · exact .bind (.ok _) fun base _ => Bundle.record_fits hnet hb (hstated.withdrawn v)
      (Nat.zero_le _) hreported hcomputed (hb.slashing v)
  · exact hbase.bind fun base _ => Bundle.record_fits hnet hb (hstated.withdrawn v)
      (Nat.zero_le _) hreported hcomputed (hb.slashing v)

namespace Window.AtScale

/-- **No record overflows at the scale of networks.** If what its blocks report and pay out is of
that size too, then building a bundle of the window does not overflow, and neither does the record
of any validator. -/
theorem no_overflow_record (hw : w.AtScale net) (hnet : net.Usual) (hstated : w.StatedAtScale)
    (preference : ReportPreference) :
    Calc.Errs (fun e => ¬ e.IsOverflow) (Bundle.build net preference w) ∧
      ∀ b, Bundle.build net preference w = .ok b → ∀ v,
        Calc.Errs (fun e => ¬ e.IsOverflow) (b.resolve v) := by
  obtain ⟨hbuild, hcontained⟩ := Bundle.fits_build hw hnet preference
  refine ⟨hbuild, fun b hb v => ?_⟩
  have hbalanced := Bundle.balanced_build hstated.slots hb
  rw [Bundle.visited, Bundle.window_build hb] at hbalanced
  unfold Bundle.resolve
  split
  · next hflags =>
    rw [if_pos hflags] at hbalanced
    exact Altair.record_fits hw hnet hstated (hcontained b hb) hbalanced v
  · next hflags =>
    rw [if_neg hflags] at hbalanced
    exact Phase0.record_fits hw hnet hstated (hcontained b hb) hbalanced v

end Window.AtScale

end EpochRewards
