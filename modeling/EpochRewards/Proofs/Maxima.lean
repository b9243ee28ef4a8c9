import EpochRewards.Proofs.Attainability
import EpochRewards.Proofs.Completeness
import EpochRewards.Proofs.Frames
import EpochRewards.Proofs.Headroom

/-!
Maxima of attesters, against the base reward.

The balances that earned a flag are a part of the active balance, since no validator is credited
twice. So the share of each flag is no more than the flag's part of the base reward, and the maximum
is no more than all parts together.
-/

namespace EpochRewards

open Pass

/-! ### Active validators -/

namespace Snapshot

variable {net : Network} {s : Snapshot} {e : Epoch} {v : ValidatorIndex}

/-- The validator is in the registry and active in the epoch. -/
def IsActive (s : Snapshot) (e : Epoch) (v : ValidatorIndex) : Prop :=
  ∃ x, s.validator? v = some x ∧ x.isActiveAt e = true

lemma mem_activeIndices : v ∈ s.activeIndices e ↔ s.IsActive e v := by
  simp only [activeIndices, List.mem_map, List.mem_filter, Prod.exists, exists_eq_right,
    List.mem_zipIdx_iff_getElem?]
  exact Iff.rfl

lemma map_activeIndices (s : Snapshot) (e : Epoch) :
    (s.activeIndices e).map s.effectiveBalanceOf
      = (s.validators.filter (·.isActiveAt e)).map (·.effectiveBalance) := by
  have hbalance : ∀ x ∈ s.validators.zipIdx.filter fun x => x.1.isActiveAt e,
      s.effectiveBalanceOf x.2 = x.1.effectiveBalance := by
    intro x hx
    have hget : s.validators[x.2]? = some x.1 :=
      List.mem_zipIdx_iff_getElem?.1 (List.mem_of_mem_filter hx)
    rw [effectiveBalanceOf, validator?, hget]
    rfl
  have hfirst : (s.validators.zipIdx.filter fun x => x.1.isActiveAt e).map Prod.fst
      = s.validators.filter (·.isActiveAt e) := by
    conv_rhs => rw [← List.zipIdx_map_fst 0 s.validators, List.filter_map]
    rfl
  have hindices : s.activeIndices e
      = (s.validators.zipIdx.filter fun x => x.1.isActiveAt e).map Prod.snd := rfl
  rw [hindices, List.map_map, ← hfirst, List.map_map]
  exact List.map_congr_left hbalance

lemma activeBalance_ok {n : Gwei} (h : s.activeBalance net = .ok n) :
    n = max ((s.activeIndices s.epoch).map s.effectiveBalanceOf).sum net.balanceIncrement.val := by
  simp only [activeBalance, Calc.bind_ok, Calc.pure_ok] at h
  obtain ⟨sum, hsum, rfl⟩ := h
  rw [map_activeIndices, Word.sum_ok hsum]

/-- Active validators that are named once have a part of the active balance. -/
lemma sum_le_activeBalance {n : Gwei} (h : s.activeBalance net = .ok n) {vs : List ValidatorIndex}
    (hnodup : vs.Nodup) (hactive : ∀ v ∈ vs, s.IsActive s.epoch v) :
    (vs.map s.effectiveBalanceOf).sum ≤ n := by
  rw [activeBalance_ok h]
  calc (vs.map s.effectiveBalanceOf).sum
      ≤ ((s.activeIndices s.epoch).map s.effectiveBalanceOf).sum :=
        sum_map_le_of_nodup hnodup fun v hv _ => mem_activeIndices.2 (hactive v hv)
    _ ≤ _ := Nat.le_max_left _ _

end Snapshot

/-- Those who vote for the first epoch are active in the second snapshot. -/
def Window.VotersActive (w : Window) : Prop :=
  ∀ committee ∈ w.prev.duties.committees, ∀ v ∈ committee.members,
    w.current.IsActive w.current.epoch v

namespace Bundle

variable {net : Network} {w : Window} {a b c : Bundle}

/-! ### Balances behind flags -/

/-- The bundle has the setting, the tallies and the balances behind flags of another. -/
structure AlikeInVotes (a b : Bundle) : Prop where
  setting : b.setting = a.setting
  tallies : b.tallies = a.tallies
  attesting : b.attestingBalance = a.attestingBalance

lemma alikeInVotes_refl (a : Bundle) : AlikeInVotes a a := ⟨rfl, rfl, rfl⟩

lemma alikeInVotes_ignoresPayments (a : Bundle) : IgnoresPayments (AlikeInVotes a) :=
  fun _ _ _ h => ⟨h.setting, h.tallies, h.attesting⟩

lemma alikeInVotes_ignoresSlashings (a : Bundle) : IgnoresSlashings (AlikeInVotes a) :=
  fun _ _ h => ⟨h.setting, h.tallies, h.attesting⟩

lemma alikeInVotes_ignoresOpportunities (a : Bundle) : IgnoresOpportunities (AlikeInVotes a) :=
  fun _ _ h => ⟨h.setting, h.tallies, h.attesting⟩

/-- A bundle of the window in which nobody has a maximum, and no more balance is behind a flag than
is active. -/
structure Polled (net : Network) (w : Window) (b : Bundle) : Prop where
  network : b.network = net
  window : b.window = w
  active : w.current.activeBalance net = .ok b.currentActiveBalance
  attesting : ∀ flag, b.attestingBalance.get flag ≤ b.currentActiveBalance
  unrewarded : ∀ t ∈ b.tallies, t.maxAttesterReward = 0

lemma Polled.alike (h : b.Polled net w) (hc : AlikeInVotes b c) : c.Polled net w := by
  obtain ⟨hnetwork, -, -, hwindow, hactive, -⟩ := setting_eq_iff.1 hc.setting
  refine ⟨hnetwork.trans h.network, hwindow.trans h.window, hactive ▸ h.active, fun flag => ?_,
    hc.tallies ▸ h.unrewarded⟩
  rw [hc.attesting, hactive]
  exact h.attesting flag

section Fresh

variable {phase : Phase} {preference : ReportPreference}

lemma polled_fresh (h : fresh net phase preference w = .ok b) : b.Polled net w := by
  have hzero := fresh_tallies h
  simp only [fresh, Calc.bind_ok, Calc.pure_ok] at h
  obtain ⟨active, hactive, _, -, rfl⟩ := h
  refine ⟨rfl, rfl, hactive, fun flag => ?_, fun t ht => ?_⟩
  · cases flag <;> exact Nat.zero_le _
  · rw [hzero t ht]
    rfl

end Fresh

/-- The validators whose first votes earned a flag. -/
def earners (b : Bundle) (flag : Flag) : List ValidatorIndex :=
  ((firsts Inclusion.validator b.inclusions).filter fun i =>
    (b.flagsOf i).has flag).map Inclusion.validator

/-- No validator earns a flag twice. -/
lemma nodup_earners (b : Bundle) (flag : Flag) : (b.earners flag).Nodup :=
  (nodup_keys_firsts b.inclusions).sublist (List.filter_sublist.map _)

/-- Only committee members earn flags. -/
lemma committee_of_mem_earners {flag : Flag} {v : ValidatorIndex} (h : v ∈ b.earners flag) :
    ∃ committee ∈ b.window.prev.duties.committees, v ∈ committee.members := by
  obtain ⟨i, hi, rfl⟩ := List.mem_map.1 h
  obtain ⟨-, a, -, -, -, hvoter⟩ :=
    mem_inclusions.1 (mem_of_mem_firsts (List.mem_of_mem_filter hi))
  obtain ⟨committee, hc, -, hmember⟩ := Duties.committee_of_mem_voters hvoter
  exact ⟨committee, hc, hmember⟩

lemma earnedBalance_eq (b : Bundle) (flag : Flag) : b.earnedBalance b.inclusions flag
    = ((b.earners flag).map b.window.current.effectiveBalanceOf).sum := by
  rw [earners, List.map_map]
  rfl

/-- The balances that earned a flag are those of different active validators. -/
lemma earnedBalance_le_active (hactive : b.window.VotersActive) {n : Gwei}
    (hn : b.window.current.activeBalance net = .ok n) (flag : Flag) :
    b.earnedBalance b.inclusions flag ≤ n := by
  rw [earnedBalance_eq]
  refine Snapshot.sum_le_activeBalance hn (nodup_earners b flag) fun v hv => ?_
  obtain ⟨committee, hc, hmember⟩ := committee_of_mem_earners hv
  exact hactive committee hc v hmember

lemma Polled.processAttestations (hactive : w.VotersActive) (hb : b.Polled net w)
    (hzero : ∀ t ∈ b.tallies, t = .zero) (hattesting : b.attestingBalance = .zero)
    {credits : List Credit} (h : processAttestations b = .ok credits c) : c.Polled net w := by
  obtain ⟨-, -, hw, -⟩ := processAttestations_ok (fun t ht => by rw [hzero t ht]; rfl) h
  have hcurrent : c.currentActiveBalance = b.currentActiveBalance := by rw [hw.frame]
  refine ⟨by rw [hw.frame, ← hb.network], by rw [hw.frame, ← hb.window], hcurrent ▸ hb.active,
    fun flag => ?_, fun t ht => ?_⟩
  · have hnone : b.attestingBalance.get flag = 0 := by rw [hattesting]; cases flag <;> rfl
    rw [hw.balance, hnone, Nat.zero_add, hcurrent]
    refine earnedBalance_le_active ?_ (hb.window ▸ hb.active) flag
    rw [hb.window]
    exact hactive
  · obtain ⟨v, hv⟩ := List.mem_iff_getElem?.1 ht
    rcases hw.credited hzero hv with ⟨i, -, -, rfl⟩ | rfl
    · rfl
    · rfl

/-! ### One maximum after the other -/

/-- The maxima of the validators listed follow the rule, and nobody else has one. -/
structure Maximized (b : Bundle) (rule : ValidatorIndex → Gwei → Prop) (vs : List ValidatorIndex)
    (c : Bundle) : Prop where
  frame : ∃ tallies, c = { b with tallies }
  listed : ∀ v t, c.tallies[v]? = some t → v ∈ vs → rule v t.maxAttesterReward
  others : ∀ v t, c.tallies[v]? = some t → v ∉ vs → t.maxAttesterReward = 0

variable {rule : ValidatorIndex → Gwei → Prop} {pass : ValidatorIndex → Pass Unit}
  {seen vs : List ValidatorIndex} {v : ValidatorIndex} {r : Gwei} {u : Unit}

lemma addAttesterReward_ok (h : addAttesterReward v r b = .ok u c) :
    ∃ t, b.tallies[v]? = some t ∧ c = { b with
      tallies := b.tallies.set v { t with maxAttesterReward := t.maxAttesterReward + r } } := by
  simp only [addAttesterReward, setTally_ok, Pass.bind_ok, Pass.get_ok, Pass.lift_ok, Pass.fault_ok,
    tally, Calc.orFail_ok, Word.add_ok] at h
  obtain ⟨_, _, ⟨rfl, rfl⟩, t, _, ⟨ht, rfl⟩, _, _, ⟨⟨-, rfl⟩, rfl⟩, -, rfl⟩ := h
  exact ⟨t, ht, rfl⟩

/-- A validator without a maximum gets one by the rule. -/
lemma Maximized.add (h : Maximized b rule seen c) (hv : v ∉ seen) (hr : rule v r) {d : Bundle}
    (hd : addAttesterReward v r c = .ok u d) : Maximized b rule (seen ++ [v]) d := by
  obtain ⟨t, ht, rfl⟩ := addAttesterReward_ok hd
  obtain ⟨tallies, rfl⟩ := h.frame
  have hzero := h.others v t ht hv
  refine ⟨⟨_, rfl⟩, fun x k hx hmem => ?_, fun x k hx hmem => ?_⟩
  · change (tallies.set v _)[x]? = some k at hx
    rcases List.mem_append.1 hmem with hmem | hmem
    · have hne : v ≠ x := by
        rintro rfl
        exact hv hmem
      rw [List.getElem?_set_ne hne] at hx
      exact h.listed x k hx hmem
    · obtain rfl := List.mem_singleton.1 hmem
      have hlt : x < tallies.length := (List.getElem?_eq_some_iff.1 ht).1
      rw [List.getElem?_set_self hlt] at hx
      rw [← Option.some.inj hx, hzero, Nat.zero_add]
      exact hr
  · rw [List.mem_append, List.mem_singleton, not_or] at hmem
    change (tallies.set v _)[x]? = some k at hx
    rw [List.getElem?_set_ne (Ne.symm hmem.2)] at hx
    exact h.others x k hx hmem.1

/-- The analysed validators get their maxima one by one, whatever the rule is. -/
lemma maximized_forM (hzero : ∀ t ∈ b.tallies, t.maxAttesterReward = 0)
    (hpass : ∀ v tallies d, pass v { b with tallies } = .ok () d →
      ∃ r, rule v r ∧ addAttesterReward v r { b with tallies } = .ok () d)
    (h : b.analysedValidators.forM pass b = .ok u c) :
    Maximized b rule b.analysedValidators c := by
  have hmeets : Meets (fun _ _ => True) (fun _ => Maximized b rule b.analysedValidators)
      (b.analysedValidators.forM pass b) := by
    refine .forM (J := Maximized b rule) ?_ fun seen v hv d hd => ?_
    · exact ⟨⟨_, rfl⟩, fun _ _ _ hmem => (nomatch hmem),
        fun v t ht _ => hzero t (List.mem_of_getElem? ht)⟩
    · have hnew : v ∉ seen := by
        have hnodup : (seen ++ [v]).Nodup := (nodup_analysedValidators b).sublist hv.sublist
        exact fun hmem => (List.nodup_append.1 hnodup).2.2 v hmem v (by simp) rfl
      cases he : pass v d with
      | error e d' => exact trivial
      | ok u e =>
        obtain ⟨tallies, rfl⟩ := hd.frame
        obtain ⟨r, hr, hadd⟩ := hpass v tallies e he
        exact hd.add hnew hr hadd
  rw [h] at hmeets
  exact hmeets

/-- No maximum is above what the base reward allows, and only active validators have one. -/
structure AttestersCapped (net : Network) (w : Window) (baseReward : ValidatorIndex → Calc Gwei)
    (cap : Gwei → Gwei) (c : Bundle) : Prop where
  network : c.network = net
  window : c.window = w
  active : w.current.activeBalance net = .ok c.currentActiveBalance
  attesting : ∀ flag, c.attestingBalance.get flag ≤ c.currentActiveBalance
  capped : ∀ v t base, c.tallies[v]? = some t → baseReward v = .ok base →
    t.maxAttesterReward ≤ cap base
  inactive : ∀ v t, c.tallies[v]? = some t → ¬ w.next.IsActive w.prev.epoch v →
    t.maxAttesterReward = 0
  /-- without a base reward there is no maximum either -/
  valued : ∀ v t, c.tallies[v]? = some t → (∀ base, baseReward v ≠ .ok base) →
    t.maxAttesterReward = 0

lemma attestersCapped_ignoresSync (net : Network) (w : Window)
    (baseReward : ValidatorIndex → Calc Gwei) (cap : Gwei → Gwei) :
    IgnoresSync (AttestersCapped net w baseReward cap) :=
  fun _ _ h => ⟨h.network, h.window, h.active, h.attesting, h.capped, h.inactive, h.valued⟩

/-- Where there are no maxima they are capped. -/
lemma Polled.attestersCapped (h : b.Polled net w) (baseReward : ValidatorIndex → Calc Gwei)
    (cap : Gwei → Gwei) : AttestersCapped net w baseReward cap b := by
  have hzero {v : ValidatorIndex} {t : ValidatorTally} (ht : b.tallies[v]? = some t) :
      t.maxAttesterReward = 0 := h.unrewarded t (List.mem_of_getElem? ht)
  refine ⟨h.network, h.window, h.active, h.attesting, fun v t base ht _ => ?_,
    fun v t ht _ => hzero ht, fun v t ht _ => hzero ht⟩
  rw [hzero ht]
  exact Nat.zero_le _

/-- A rule that stays below the cap is all it takes. -/
lemma Maximized.attestersCapped {baseReward : ValidatorIndex → Calc Gwei} {cap : Gwei → Gwei}
    (h : Maximized b rule b.analysedValidators c) (hb : b.Polled net w)
    (hrule : ∀ v r, rule v r → ∃ base, baseReward v = .ok base ∧ r ≤ cap base) :
    AttestersCapped net w baseReward cap c := by
  obtain ⟨tallies, rfl⟩ := h.frame
  have hanalysed (v : ValidatorIndex) :
      v ∈ b.analysedValidators ↔ w.next.IsActive w.prev.epoch v := by
    rw [analysedValidators, hb.window]
    exact Snapshot.mem_activeIndices
  refine ⟨hb.network, hb.window, hb.active, hb.attesting, fun v t base ht hbase => ?_,
    fun v t ht hv => ?_, fun v t ht hnone => ?_⟩
  · by_cases hv : v ∈ b.analysedValidators
    · obtain ⟨base', hbase', hle⟩ := hrule v _ (h.listed v t ht hv)
      obtain rfl : base' = base := Except.ok.inj (hbase'.symm.trans hbase)
      exact hle
    · rw [h.others v t ht hv]
      exact Nat.zero_le _
  · exact h.others v t ht (mt (hanalysed v).1 hv)
  · refine h.others v t ht fun hv => ?_
    obtain ⟨base, hbase, -⟩ := hrule v _ (h.listed v t ht hv)
    exact hnone base hbase

/-- The walk over the votes of a window, whatever passes that leave them alone go before it. -/
lemma polled_walked {phase : Phase} {preference : ReportPreference} (hactive : w.VotersActive)
    (ha : fresh net phase preference w = .ok a) (hb : AlikeInVotes a b) {credits : List Credit}
    (hc : Bundle.processAttestations b = .ok credits c) :
    c.Polled net w ∧ c.setting = a.setting := by
  have hzero : ∀ t ∈ b.tallies, t = .zero := hb.tallies ▸ fresh_tallies ha
  have hattesting : b.attestingBalance = .zero := hb.attesting.trans (fresh_ok ha).2.2.2.2.1
  exact ⟨((polled_fresh ha).alike hb).processAttestations hactive hzero hattesting hc,
    (setting_changes (makes_processAttestations.changes_of_ok hc)).trans hb.setting⟩

end Bundle

open EpochRewards.Bundle

variable {net : Network} {w : Window} {b c : Bundle} {u : Unit}

/-! ### Maxima before Altair -/

namespace Phase0

/-- Three shares and one for the delay, less the proposer's part. -/
lemma maxReward_le {v : ValidatorIndex} {r : Gwei} (hb : b.Polled net w)
    (h : maxReward b v = .ok r) :
    ∃ base, baseReward b v = .ok base ∧
      r ≤ 4 * base - base / b.network.proposerQuotient.val := by
  obtain ⟨base, hbase, hr⟩ := maxReward_ok h
  refine ⟨base, hbase, ?_⟩
  have harith (flags delay base part : Nat) (hflags : flags ≤ base + (base + (base + 0)))
      (hpart : part ≤ base) (hdelay : delay ≤ base - part) : flags + delay ≤ 4 * base - part := by
    omega
  have hflags : b.attainableSum v (flagShare b base) ≤ (Flag.all.map fun _ => base).sum :=
    attainableSum_le fun flag => flagShare_le (hb.attesting flag)
  have hpart : base / b.network.proposerQuotient.val ≤ base := Nat.div_le_self _ _
  rcases delayReward_ok hr with ⟨slot, delay, -, -, rfl⟩ | ⟨-, rfl⟩
  · exact harith _ _ _ _ hflags hpart (delayShare_le b base delay)
  · exact harith _ 0 _ _ hflags hpart (Nat.zero_le _)

lemma baseReward_congr (h : c.setting = b.setting) : baseReward c = baseReward b := by
  obtain ⟨hnetwork, -, -, hwindow, hactive, -⟩ := setting_eq_iff.1 h
  unfold baseReward
  rw [hnetwork, hwindow, hactive]

lemma processMaxRewards_maximized (hb : b.Polled net w) (h : processMaxRewards b = .ok u c) :
    Maximized b (fun v r => maxReward b v = .ok r) b.analysedValidators c := by
  have hrun : b.analysedValidators.forM processMaxReward b = .ok u c := h
  refine maximized_forM hb.unrewarded (fun v tallies d hd => ?_) hrun
  simp only [processMaxReward, Pass.bind_ok, Pass.get_ok, Pass.lift_ok] at hd
  obtain ⟨_, _, ⟨rfl, rfl⟩, _, _, ⟨-, rfl⟩, r, _, ⟨hr, rfl⟩, hadd⟩ := hd
  exact ⟨r, hr, hadd⟩

end Phase0

/-! ### Maxima since Altair -/

namespace Altair

/-- The base reward of a validator at the active balance of the second snapshot. -/
def currentBaseReward (b : Bundle) (v : ValidatorIndex) : Calc Gwei := do
  let validator ← b.window.current.registered v
  b.network.baseReward validator.effectiveBalance
    (← b.network.baseRewardPerIncrement b.currentActiveBalance)

lemma currentBaseReward_congr (h : c.setting = b.setting) :
    currentBaseReward c = currentBaseReward b := by
  obtain ⟨hnetwork, -, -, hwindow, hactive, -⟩ := setting_eq_iff.1 h
  unfold currentBaseReward
  rw [hnetwork, hwindow, hactive]

/-- The shares of the flags within reach. -/
def MaximumOf (b : Bundle) (v : ValidatorIndex) (r : Gwei) : Prop :=
  ∃ base, currentBaseReward b v = .ok base ∧ r = b.attainableSum v (flagShare b base)

lemma processMaxRewards_maximized (hb : b.Polled net w) (h : processMaxRewards b = .ok u c) :
    Maximized b (MaximumOf b) b.analysedValidators c := by
  simp only [processMaxRewards, Pass.bind_ok, Pass.get_ok, Pass.fault_ok] at h
  obtain ⟨_, _, ⟨rfl, rfl⟩, p, _, ⟨hp, rfl⟩, h⟩ := h
  refine maximized_forM hb.unrewarded (fun v tallies d hd => ?_) h
  simp only [processMaxReward, Pass.bind_ok, Pass.get_ok, Pass.lift_ok, Pass.fault_ok] at hd
  obtain ⟨_, _, ⟨rfl, rfl⟩, _, _, ⟨-, rfl⟩, x, _, ⟨hx, rfl⟩, base, _, ⟨hbase, rfl⟩, r, _,
    ⟨hr, rfl⟩, hadd⟩ := hd
  have hcurrent : currentBaseReward b v = .ok base := by
    simp only [currentBaseReward, Calc.bind_ok, Calc.fault_ok]
    exact ⟨x, hx, p, hp, hbase⟩
  exact ⟨r, ⟨base, hcurrent, (flagReward_addsShare b v base).sum hr⟩, hadd⟩

end Altair

/-! ### Whole runs -/

section Runs

variable {phase : Phase} {preference : ReportPreference}

lemma Phase0.attestersCapped (hactive : w.VotersActive)
    (hb : fresh net phase preference w = .ok b) (hc : Phase0.prepare b = .ok u c) :
    AttestersCapped net w (Phase0.baseReward b)
      (fun base => 4 * base - base / net.proposerQuotient.val) c := by
  simp only [Phase0.prepare, Pass.bind_ok, Pass.get_ok] at hc
  obtain ⟨_, _, ⟨rfl, rfl⟩, hc⟩ := hc
  split at hc
  · simp only [Phase0.processInclusionDelays, Pass.bind_ok] at hc
    obtain ⟨_, b₁, h₁, _, b₂, h₂, _, b₃, ⟨credits, d, hd, h₃⟩, hc⟩ := hc
    have hb₁ := (processSlashings_upholds (alikeInVotes_ignoresSlashings b) _
      (alikeInVotes_refl b) h₁).1
    have hb₂ := (indexOpportunities_upholds (alikeInVotes_ignoresOpportunities b) hb₁ h₂).1
    obtain ⟨hpolled, hsetting⟩ := polled_walked hactive hb hb₂ hd
    have hb₃ := (Upholds.forM (fun credit _ =>
      Phase0.payInclusion_upholds (alikeInVotes_ignoresPayments d) credit) (alikeInVotes_refl d) h₃).1
    have hpolled := hpolled.alike hb₃
    refine (Phase0.processMaxRewards_maximized hpolled hc).attestersCapped hpolled fun v r hr => ?_
    obtain ⟨base, hbase, hle⟩ := Phase0.maxReward_le hpolled hr
    rw [Phase0.baseReward_congr (hb₃.setting.trans hsetting)] at hbase
    exact ⟨base, hbase, hpolled.network ▸ hle⟩
  · obtain ⟨-, rfl⟩ := Pass.pure_ok.1 hc
    exact (polled_fresh hb).attestersCapped _ _

lemma Altair.attestersCapped (hactive : w.VotersActive)
    (hb : fresh net phase preference w = .ok b) (hc : Altair.prepare b = .ok u c) :
    AttestersCapped net w (Altair.currentBaseReward b)
      (fun base => (Flag.all.map fun flag => flag.weight * base / weightDenominator).sum) c := by
  simp only [Altair.prepare, Pass.bind_ok, Pass.get_ok] at hc
  obtain ⟨_, _, ⟨rfl, rfl⟩, hc⟩ := hc
  split at hc
  · simp only [Pass.bind_ok] at hc
    obtain ⟨_, b₁, h₁, _, b₂, h₂, _, b₃, h₃, credits, d, hd, _, b₄, h₄, _, b₅, h₅, hc⟩ := hc
    have hb₁ := (processSlashings_upholds (alikeInVotes_ignoresSlashings b) _
      (alikeInVotes_refl b) h₁).1
    have hb₂ := (Altair.processSyncAggregates_upholds (alikeInVotes_ignoresPayments b) hb₁ h₂).1
    have hb₃ := (indexOpportunities_upholds (alikeInVotes_ignoresOpportunities b) hb₂ h₃).1
    obtain ⟨hpolled, hsetting⟩ := polled_walked hactive hb hb₃ hd
    have hb₄ := (Altair.processIncludedVotes_upholds (alikeInVotes_ignoresPayments d)
      (alikeInVotes_refl d) h₄).1
    have hpolled := hpolled.alike hb₄
    have hcapped : AttestersCapped net w (Altair.currentBaseReward b) _ b₅ :=
      (Altair.processMaxRewards_maximized hpolled h₅).attestersCapped hpolled fun v r hr => by
        obtain ⟨base, hbase, rfl⟩ := hr
        rw [Altair.currentBaseReward_congr (hb₄.setting.trans hsetting)] at hbase
        exact ⟨base, hbase,
          attainableSum_le fun flag => Altair.flagShare_le (hpolled.attesting flag)⟩
    exact (Altair.processSyncCommittee_upholds (attestersCapped_ignoresSync net w _ _) hcapped hc).1
  · obtain ⟨-, rfl⟩ := Pass.pure_ok.1 hc
    exact (polled_fresh hb).attestersCapped _ _

end Runs

namespace Window

/-- **Attesters are capped by the base reward.** If everybody who votes for the first epoch is
active in the second snapshot, then after the passes of either set of rules no flag has more balance
behind it than is active, and no validator has more than the parts of its base reward. -/
theorem attesters_capped (hactive : w.VotersActive) {phase : Phase}
    {preference : ReportPreference} (hb : fresh net phase preference w = .ok b) :
    (∀ c, Altair.prepare b = .ok () c → AttestersCapped net w (Altair.currentBaseReward b)
        (fun base => (Flag.all.map fun flag => flag.weight * base / weightDenominator).sum) c) ∧
      ∀ c, Phase0.prepare b = .ok () c → AttestersCapped net w (Phase0.baseReward b)
        (fun base => 4 * base - base / net.proposerQuotient.val) c :=
  ⟨fun _ hc => Altair.attestersCapped hactive hb hc,
    fun _ hc => Phase0.attestersCapped hactive hb hc⟩

open WellFormed

lemma votingWindow_maxima :
    (after (fresh .fourSlots .altair .strictlyPositive votingWindow) Altair.prepare).map
        (·.tallies.map (·.maxAttesterReward)) = some [216, 216] ∧
      (after (fresh .fourSlots .phase0 .strictlyPositive votingWindow) Phase0.prepare).map
        (·.tallies.map (·.maxAttesterReward)) = some [248, 248] := by
  constructor
  · cbv
  · cbv

/-- Validators that could have earned every flag reach the cap, for base rewards of 256 and 64. -/
theorem votingWindow_attesters_capped :
    votingWindow.VotersActive ∧
      (∃ b c, fresh .fourSlots .altair .strictlyPositive votingWindow = .ok b ∧
        Altair.prepare b = .ok () c ∧ c.tallies.map (·.maxAttesterReward) = [216, 216] ∧
          AttestersCapped .fourSlots votingWindow (Altair.currentBaseReward b)
            (fun base => (Flag.all.map fun flag => flag.weight * base / weightDenominator).sum) c) ∧
        ∃ b c, fresh .fourSlots .phase0 .strictlyPositive votingWindow = .ok b ∧
          Phase0.prepare b = .ok () c ∧ c.tallies.map (·.maxAttesterReward) = [248, 248] ∧
            AttestersCapped .fourSlots votingWindow (Phase0.baseReward b)
              (fun base => 4 * base - base / Network.fourSlots.proposerQuotient.val) c := by
  have hindices : ∀ committee ∈ votingWindow.prev.duties.committees, ∀ v ∈ committee.members,
      v ∈ votingWindow.current.activeIndices votingWindow.current.epoch := by decide
  have hactive : votingWindow.VotersActive := fun committee hc v hv =>
    Snapshot.mem_activeIndices.1 (hindices committee hc v hv)
  obtain ⟨b, _, c, hb, hc, hmaxima⟩ := exists_of_after votingWindow_maxima.1
  obtain ⟨b', _, c', hb', hc', hmaxima'⟩ := exists_of_after votingWindow_maxima.2
  exact ⟨hactive, ⟨b, c, hb, hc, hmaxima, (attesters_capped hactive hb).1 c hc⟩, b', c', hb', hc',
    hmaxima', (attesters_capped hactive hb').2 c' hc'⟩

end Window

end EpochRewards
