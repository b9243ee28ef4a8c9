import EpochRewards.Proofs.Pass
import EpochRewards.Reward.Accounting

/-!
The figures of records.

A record repeats what its bundle has about a validator. The sets of rules differ in the blocks whose
proposers are rewarded and in whether there is a sync committee.
-/

namespace EpochRewards.Bundle

/-- The blocks whose proposers the records of a bundle reward. -/
def visited (b : Bundle) : List Block :=
  if b.phase.usesParticipationFlags then b.window.next.blocks else b.window.blocksBeforeNext

/-- The record says of `v` what the bundle has, with the proposals in `read` and a sync committee
that is worth `sync` to a member. -/
structure Figures (b : Bundle) (v : ValidatorIndex) (read : List Block) (sync : Gwei)
    (seated : Bool) (rec : ValidatorRecord) : Prop where
  subject : rec.validator = v ∧ rec.epoch = b.window.next.epoch ∧ rec.slot = b.window.next.slot ∧
    rec.pool = none
  tally : ∃ t, b.tallies[v]? = some t ∧ rec.attestationReward = t.maxAttesterReward ∧
    rec.missingSource = !t.flags.source ∧ rec.missingTarget = !t.flags.target ∧
    rec.missingHead = !t.flags.head
  proposals : b.proposerRewards v read
    = .ok (rec.reportedProposerReward, rec.computedProposerReward)
  proposer : rec.proposerReward
    = b.preference.resolve rec.reportedProposerReward rec.computedProposerReward
  sync : rec.syncReward = sync
  seated : rec.inSyncCommittee = seated
  slashing : rec.slashingReward = b.maxSlashingRewards.amount v
  max : rec.maxReward
    = rec.attestationReward + rec.syncReward + rec.proposerReward + rec.slashingReward
  delay : b.inclusionDelay v = .ok rec.inclusionDelay
  reward : b.epochReward v = .ok rec.reward

variable {b : Bundle} {v : ValidatorIndex} {rec : ValidatorRecord}

lemma record_figures {read : List Block} {c : RewardComponents} {t : ValidatorTally}
    (ht : b.tally v = .ok t) (hattester : c.attester = t.maxAttesterReward)
    (hslashing : c.slashing = b.maxSlashingRewards.amount v)
    (hrewards : b.proposerRewards v read = .ok (c.reportedProposer, c.computedProposer))
    (h : b.record v c = .ok rec) : b.Figures v read c.sync c.inSyncCommittee rec := by
  simp only [record, Calc.bind_ok, Calc.pure_ok, Calc.fault_ok, Word.add_ok, ht] at h
  obtain ⟨_, ⟨⟩, _, -, _, ⟨-, rfl⟩, _, ⟨-, rfl⟩, _, ⟨-, rfl⟩, _, hreward, _, hdelay, rfl⟩ := h
  rw [tally, Calc.orFail_ok] at ht
  refine ⟨⟨rfl, rfl, rfl, rfl⟩, ⟨t, ht, hattester, rfl, rfl, rfl⟩, hrewards, rfl, rfl, rfl,
    hslashing, ?_, hdelay, hreward⟩
  rw [hattester]

lemma altair_figures (h : Altair.record b v = .ok rec) :
    b.Figures v b.window.next.blocks (b.maxSyncRewards.amount v) (b.maxSyncRewards.contains v)
      rec := by
  simp only [Altair.record, Calc.bind_ok, Calc.fault_ok] at h
  obtain ⟨t, ht, ⟨reported, computed⟩, hrewards, h⟩ := h
  split at h
  · obtain ⟨_, -, h⟩ := Calc.bind_ok.1 h
    exact record_figures ht rfl rfl hrewards h
  · obtain ⟨_, -, h⟩ := Calc.bind_ok.1 h
    exact record_figures ht rfl rfl hrewards h

lemma phase0_figures (h : Phase0.record b v = .ok rec) :
    b.Figures v b.window.blocksBeforeNext 0 false rec := by
  simp only [Phase0.record, Calc.bind_ok, Calc.fault_ok] at h
  obtain ⟨t, ht, ⟨reported, computed⟩, hrewards, h⟩ := h
  split at h
  · obtain ⟨_, -, h⟩ := Calc.bind_ok.1 h
    exact record_figures ht rfl rfl hrewards h
  · obtain ⟨_, -, h⟩ := Calc.bind_ok.1 h
    exact record_figures ht rfl rfl hrewards h

lemma resolve_figures (h : b.resolve v = .ok rec) :
    b.Figures v b.visited
      (if b.phase.usesParticipationFlags then b.maxSyncRewards.amount v else 0)
      (b.phase.usesParticipationFlags && b.maxSyncRewards.contains v) rec := by
  unfold resolve at h
  unfold visited
  split at h
  · next hp =>
    rw [if_pos hp, if_pos hp, hp]
    exact altair_figures h
  · next hp =>
    rw [if_neg hp, if_neg hp, Bool.eq_false_iff.2 hp]
    exact phase0_figures h

/-! ### Delays -/

/-- The delay that the passes have credited a validator with. -/
def delayOf (b : Bundle) (v : ValidatorIndex) : Option Nat := b.tallies[v]? >>= (·.inclusionDelay)

/-- Without a delay, one more than the slots of an epoch is recorded. -/
lemma inclusionDelay_ok {delay : Nat} (h : b.inclusionDelay v = .ok delay) :
    delay = (b.delayOf v).getD (b.network.slotsPerEpoch.val + 1) := by
  rw [inclusionDelay] at h
  rw [delayOf]
  split at h
  · next d hd =>
    rw [hd]
    exact (Calc.pure_ok.1 h).symm
  · next hnone =>
    rw [hnone]
    exact (Word.add_ok.1 h).2.symm

/-! ### Readings -/

/-- What `f` reads off the bundle of a window and the record of a validator, if there is one. -/
def reading {α : Type} (net : Network) (preference : ReportPreference) (w : Window)
    (v : ValidatorIndex) (f : Bundle → ValidatorRecord → α) : Option α :=
  Except.toOption do
    let b ← build net preference w
    let rec ← b.resolve v
    return f b rec

lemma exists_of_reading {α : Type} {net : Network} {preference : ReportPreference} {w : Window}
    {f : Bundle → ValidatorRecord → α} {x : α} (h : reading net preference w v f = some x) :
    ∃ b rec, build net preference w = .ok b ∧ b.resolve v = .ok rec ∧ f b rec = x := by
  simp only [reading, Calc.toOption_eq_some, Calc.bind_ok, Calc.pure_ok] at h
  obtain ⟨b, hb, rec, hrec, hx⟩ := h
  exact ⟨b, rec, hb, hrec, hx⟩

lemma reading_eq {α : Type} {net : Network} {preference : ReportPreference} {w : Window}
    {f : Bundle → ValidatorRecord → α} {b : Bundle} {rec : ValidatorRecord}
    (hb : build net preference w = .ok b) (hrec : b.resolve v = .ok rec) :
    reading net preference w v f = some (f b rec) := by
  simp only [reading, Calc.toOption_eq_some, Calc.bind_ok, Calc.pure_ok]
  exact ⟨b, hb, rec, hrec, rfl⟩

/-- What `f` reads off the bundle of a window and the summary of its first epoch. -/
def summaryReading {α : Type} (net : Network) (preference : ReportPreference) (w : Window)
    (f : Bundle → EpochSummary → α) : Option α :=
  Except.toOption do
    let b ← build net preference w
    let s ← b.epochSummary
    return f b s

lemma exists_of_summaryReading {α : Type} {net : Network} {preference : ReportPreference}
    {w : Window} {f : Bundle → EpochSummary → α} {x : α}
    (h : summaryReading net preference w f = some x) :
    ∃ b s, build net preference w = .ok b ∧ b.epochSummary = .ok s ∧ f b s = x := by
  simp only [summaryReading, Calc.toOption_eq_some, Calc.bind_ok, Calc.fault_ok, Calc.pure_ok] at h
  obtain ⟨b, hb, s, hs, hx⟩ := h
  exact ⟨b, s, hb, hs, hx⟩

end EpochRewards.Bundle
