import EpochRewards.Proofs.Maxima
import EpochRewards.Proofs.Skips

/-!
The figures about votes in finished bundles.

Only one pass walks the votes for the first epoch. Those before it leave the figures about votes
alone, and those after it at most add to maxima. So a bundle that is built has the delays, the flags
and the balances behind flags that the walk has left, and these are described by the votes.
-/

namespace EpochRewards

open Pass

/-- What a tally says about the vote of its validator. -/
def ValidatorTally.ballot (t : ValidatorTally) : Option Nat × Flags := (t.inclusionDelay, t.flags)

/-- A change that a reading does not show. -/
lemma map_set_of_eq {α β : Type} {f : α → β} {l : List α} {i : Nat} {x y : α} (hx : l[i]? = some x)
    (hy : f y = f x) : (l.set i y).map f = l.map f := by
  obtain ⟨hlt, rfl⟩ := List.getElem?_eq_some_iff.1 hx
  have hmap : i < (l.map f).length := by rwa [List.length_map]
  have hget : f l[i] = (l.map f)[i] := by rw [List.getElem_map]
  rw [List.map_set, hy, hget, List.set_getElem_self]

namespace Bundle

variable {net : Network} {phase : Phase} {preference : ReportPreference} {w : Window}
  {a b c d : Bundle} {u : Unit}

/-! ### Votes and their settings -/

lemma inclusions_congr (h : c.setting = b.setting) : c.inclusions = b.inclusions := by
  obtain ⟨hnet, -, -, hwindow, -⟩ := setting_eq_iff.1 h
  have hvotes : c.votesOf = b.votesOf := by
    funext x
    rw [votesOf, votesOf, hwindow]
  have hcounts : c.counts = b.counts := by
    funext block x
    rw [counts, counts, hnet, hwindow]
  rw [inclusions, inclusions, aggregates, aggregates, hvotes, hcounts, hwindow]

lemma flagsOf_congr (h : c.setting = b.setting) : c.flagsOf = b.flagsOf := by
  obtain ⟨hnet, hphase, -, hwindow, -⟩ := setting_eq_iff.1 h
  funext i
  rw [flagsOf, flagsOf, voteFlags_congr hnet hphase, canonical, canonical, hnet, hwindow]

lemma earnedBalance_congr (h : c.setting = b.setting) (is : List Inclusion) :
    c.earnedBalance is = b.earnedBalance is := by
  obtain ⟨-, -, -, hwindow, -⟩ := setting_eq_iff.1 h
  funext f
  rw [earnedBalance, earnedBalance, flagsOf_congr h, hwindow]

/-! ### Figures about votes -/

structure Poll where
  ballots : List (Option Nat × Flags)
  attesting : FlagTotals

def poll (b : Bundle) : Poll := ⟨b.tallies.map (·.ballot), b.attestingBalance⟩

variable {p : Poll}

lemma poll_ignoresPayments : IgnoresPayments (·.poll = p) := fun _ _ _ h => h

lemma poll_ignoresSync : IgnoresSync (·.poll = p) := fun _ _ h => h

/-- A maximum is no figure about a vote. -/
lemma poll_addAttesterReward (v : ValidatorIndex) (amount : Gwei) :
    Upholds (·.poll = p) (fun _ => True) (addAttesterReward v amount) := by
  rintro b u c rfl hc
  obtain ⟨t, ht, rfl⟩ := addAttesterReward_ok hc
  exact ⟨congrArg (Poll.mk · b.attestingBalance) (map_set_of_eq ht rfl), trivial⟩

/-- The poll of a bundle is that of a walk over the votes from a bundle like `a`. -/
def Walks (a c : Bundle) : Prop :=
  ∃ b credits d, AlikeInVotes a b ∧ processAttestations b = .ok credits d ∧ c.poll = d.poll

end Bundle

open EpochRewards.Bundle

variable {a c : Bundle} {u : Unit}

lemma Phase0.walks_prepare (hw : a.window.isRewarded = true) (hc : Phase0.prepare a = .ok u c) :
    Walks a c := by
  simp only [Phase0.prepare, Pass.bind_ok, Pass.get_ok] at hc
  obtain ⟨_, _, ⟨rfl, rfl⟩, hc⟩ := hc
  rw [if_pos hw] at hc
  simp only [Phase0.processInclusionDelays, Pass.bind_ok] at hc
  obtain ⟨_, b₁, h₁, _, b₂, h₂, _, b₃, ⟨credits, d, hd, h₃⟩, hc⟩ := hc
  have hb₁ := (processSlashings_upholds (alikeInVotes_ignoresSlashings a) _
    (alikeInVotes_refl a) h₁).1
  have hb₂ := (indexOpportunities_upholds (alikeInVotes_ignoresOpportunities a) hb₁ h₂).1
  have hb₃ := (Upholds.forM (fun credit _ =>
    Phase0.payInclusion_upholds (poll_ignoresPayments (p := d.poll)) credit) rfl h₃).1
  exact ⟨b₂, credits, d, hb₂, hd,
    (Phase0.processMaxRewards_upholds poll_addAttesterReward hb₃ hc).1⟩

lemma Altair.walks_prepare (hw : a.window.isRewarded = true) (hc : Altair.prepare a = .ok u c) :
    Walks a c := by
  simp only [Altair.prepare, Pass.bind_ok, Pass.get_ok] at hc
  obtain ⟨_, _, ⟨rfl, rfl⟩, hc⟩ := hc
  rw [if_pos hw] at hc
  simp only [Pass.bind_ok] at hc
  obtain ⟨_, b₁, h₁, _, b₂, h₂, _, b₃, h₃, credits, d, hd, _, b₄, h₄, _, b₅, h₅, hc⟩ := hc
  have hb₁ := (processSlashings_upholds (alikeInVotes_ignoresSlashings a) _
    (alikeInVotes_refl a) h₁).1
  have hb₂ := (Altair.processSyncAggregates_upholds (alikeInVotes_ignoresPayments a) hb₁ h₂).1
  have hb₃ := (indexOpportunities_upholds (alikeInVotes_ignoresOpportunities a) hb₂ h₃).1
  have hb₄ := (Altair.processIncludedVotes_upholds (poll_ignoresPayments (p := d.poll)) rfl h₄).1
  have hb₅ := (Altair.processMaxRewards_upholds poll_addAttesterReward hb₄ h₅).1
  exact ⟨b₃, credits, d, hb₃, hd, (Altair.processSyncCommittee_upholds poll_ignoresSync hb₅ hc).1⟩

namespace Bundle

variable {net : Network} {preference : ReportPreference} {w : Window} {b : Bundle}

/-- A bundle of a window with rewards has the poll of the walk over its votes. -/
lemma walks_of_build (hr : w.isRewarded = true) (h : build net preference w = .ok c) :
    ∃ phase a, fresh net phase preference w = .ok a ∧ Walks a c ∧ c.setting = a.setting := by
  obtain ⟨a, ha, hc⟩ := exists_fresh_of_build h
  have hrewarded : a.window.isRewarded = true := by rw [window_fresh ha, hr]
  refine ⟨_, a, ha, ?_, setting_prepared hc⟩
  rw [prepared_ok, prepare_eq] at hc
  split at hc
  · exact Altair.walks_prepare hrewarded hc
  · exact Phase0.walks_prepare hrewarded hc

/-- Behind a flag of a built bundle are the balances of the first votes that earned it. -/
lemma attesting_build (h : build net preference w = .ok b) (f : Flag) :
    b.attestingBalance.get f = if w.isRewarded then b.earnedBalance b.inclusions f else 0 := by
  have hzero (f : Flag) : FlagTotals.zero.get f = 0 := by cases f <;> rfl
  cases hr : w.isRewarded with
  | false =>
    obtain ⟨_, hfresh⟩ := fresh_of_skipped (Window.skipped_iff.2 hr) h
    rw [(fresh_ok hfresh).2.2.2.2.1, hzero]
    rfl
  | true =>
    obtain ⟨phase, a, ha, ⟨b₀, credits, d, halike, hd, hpoll⟩, hsetting⟩ := walks_of_build hr h
    obtain ⟨-, -, hwalked, -⟩ := processAttestations_ok
      (fun t ht => unvoted_fresh ha t (halike.tallies ▸ ht)) hd
    have hb₀ : b.setting = b₀.setting := hsetting.trans halike.setting.symm
    have hattesting : b.attestingBalance = d.attestingBalance := congrArg Poll.attesting hpoll
    rw [hattesting, hwalked.balance, halike.attesting, (fresh_ok ha).2.2.2.2.1, hzero,
      Nat.zero_add, inclusions_congr hb₀, earnedBalance_congr hb₀]
    rfl

end Bundle

end EpochRewards
