import EpochRewards.Proofs.Headroom

/-!
Ceilings: no reward of a whole run of the passes outgrows a word at the scale of networks.

Before Altair every product is small. After it the sync committee comes first, since its rewards
are bounded by the figures of the window alone.
-/

namespace EpochRewards

open Pass

namespace Bundle

variable {net : Network} {w : Window} {b c : Bundle} {m n : Nat}

/-! ### Stages of a run -/

/-- Before votes are walked: nobody has a vote or a maximum, and payments come to `m` at most. -/
structure Ready (net : Network) (w : Window) (m : Nat) (b : Bundle) : Prop where
  scaled : b.Scaled net w
  purse : b.Purse m
  slashed : ∀ v, b.maxSlashingRewards.amount v ≤ 2 ^ 62
  unvoted : b.Unvoted
  unrewarded : ∀ (v : ValidatorIndex) (t), b.tallies[v]? = some t → t.maxAttesterReward = 0
  unattested : ∀ f, b.attestingBalance.get f = 0
  unseated : ∀ v, b.maxSyncRewards.amount v = 0

/-- The balances behind the flags are part of the stake. -/
structure Backed (net : Network) (w : Window) (b : Bundle) : Prop where
  scaled : b.Scaled net w
  attesting : ∀ f, b.attestingBalance.get f ≤ 2 ^ 56

/-- After votes are walked: nobody has a maximum, and payments come to `m` at most. -/
structure Attested (net : Network) (w : Window) (m : Nat) (b : Bundle) : Prop extends
    Backed net w b where
  purse : b.Purse m
  slashed : ∀ v, b.maxSlashingRewards.amount v ≤ 2 ^ 62
  unrewarded : ∀ (v : ValidatorIndex) (t), b.tallies[v]? = some t → t.maxAttesterReward = 0
  unseated : ∀ v, b.maxSyncRewards.amount v = 0

/-- After all passes: figures of which one of each kind still adds up to a word. -/
structure Contained (net : Network) (w : Window) (b : Bundle) : Prop where
  scaled : b.Scaled net w
  attester : ∀ (v : ValidatorIndex) (t), b.tallies[v]? = some t → t.maxAttesterReward ≤ 2 ^ 59
  proposer : ∀ v, b.maxProposerRewards.amount v ≤ 5 * 2 ^ 59
  slashing : ∀ v, b.maxSlashingRewards.amount v ≤ 2 ^ 62
  sync : ∀ v, b.maxSyncRewards.amount v ≤ 2 ^ 63

lemma Backed.frame (h : b.Backed net w) (hc : c = { b with tallies := c.tallies }) :
    c.Backed net w := by
  have hsetting : c.setting = b.setting := by rw [hc]; rfl
  have hbalance : c.attestingBalance = b.attestingBalance := by rw [hc]
  exact ⟨h.scaled.of_setting hsetting, hbalance ▸ h.attesting⟩

lemma Ready.mono (h : b.Ready net w m) (hmn : m ≤ n) : b.Ready net w n :=
  { h with purse := h.purse.mono hmn }

lemma Attested.mono (h : b.Attested net w m) (hmn : m ≤ n) : b.Attested net w n :=
  { h with purse := h.purse.mono hmn }

/-- Before the walk only payments, slashing rewards and opportunities change. -/
lemma Ready.of_frame (h : b.Ready net w m) (hc : c = { b with
    maxProposerRewards := c.maxProposerRewards
    maxSlashingRewards := c.maxSlashingRewards
    blockTallies := c.blockTallies
    opportunities := c.opportunities }) (hpurse : c.Purse n)
    (hslashed : ∀ v, c.maxSlashingRewards.amount v ≤ 2 ^ 62) : c.Ready net w n := by
  have hsetting : c.setting = b.setting := by rw [hc]; rfl
  have htallies : c.tallies = b.tallies := by rw [hc]
  have hbalance : c.attestingBalance = b.attestingBalance := by rw [hc]
  have hsync : c.maxSyncRewards = b.maxSyncRewards := by rw [hc]
  exact ⟨h.scaled.of_setting hsetting, hpurse, hslashed, fun t ht => h.unvoted t (htallies ▸ ht),
    htallies ▸ h.unrewarded, hbalance ▸ h.unattested, hsync ▸ h.unseated⟩

lemma Ready.slash (h : b.Ready net w m) (hc : SlashedBy b (2 ^ 62) c) : c.Ready net w m := by
  obtain ⟨hc, hslashed⟩ := hc
  refine h.of_frame (by rw [hc]) ?_ hslashed
  rw [hc]
  exact ⟨h.purse.proposer, h.purse.manual⟩

lemma Ready.index (h : b.Ready net w m) (hc : c = { b with opportunities := c.opportunities }) :
    c.Ready net w m := by
  refine h.of_frame (by rw [hc]) ?_ ?_
  · rw [hc]
    exact ⟨h.purse.proposer, h.purse.manual⟩
  · rw [hc]
    exact h.slashed

lemma Ready.pays (h : b.Ready net w m) {ps : List Payment} (hp : Pays b ps c) :
    c.Ready net w (m + totalOf ps) := by
  refine h.of_frame (by rw [hp.frame]) (hp.purse h.purse) ?_
  rw [hp.frame]
  exact h.slashed

lemma Attested.pays (h : b.Attested net w m) {ps : List Payment} (hp : Pays b ps c) :
    c.Attested net w (m + totalOf ps) := by
  have hsetting : c.setting = b.setting := by rw [hp.frame]; rfl
  have hslashings : c.maxSlashingRewards = b.maxSlashingRewards := by rw [hp.frame]
  have htallies : c.tallies = b.tallies := by rw [hp.frame]
  have hbalance : c.attestingBalance = b.attestingBalance := by rw [hp.frame]
  have hsync : c.maxSyncRewards = b.maxSyncRewards := by rw [hp.frame]
  exact ⟨⟨h.scaled.of_setting hsetting, hbalance ▸ h.attesting⟩, hp.purse h.purse,
    hslashings ▸ h.slashed, htallies ▸ h.unrewarded, hsync ▸ h.unseated⟩

/-- Walking the votes neither pays nor rewards anybody. -/
lemma Ready.attested (h : b.Ready net w m) (hw : w.AtScale net) {cs : List Credit}
    (hc : processAttestations b = .ok cs c) : c.Attested net w m := by
  obtain ⟨-, -, hwalked, -⟩ := processAttestations_ok h.unvoted hc
  have hsetting : c.setting = b.setting :=
    setting_changes (makes_processAttestations.changes_of_ok hc)
  have hproposers : c.maxProposerRewards = b.maxProposerRewards := by rw [hwalked.frame]
  have hslashings : c.maxSlashingRewards = b.maxSlashingRewards := by rw [hwalked.frame]
  have hsync : c.maxSyncRewards = b.maxSyncRewards := by rw [hwalked.frame]
  have hattesting := attesting_le hw h.scaled h.unvoted h.unattested hc
  refine ⟨⟨h.scaled.of_setting hsetting, hattesting⟩,
    ⟨hproposers ▸ h.purse.proposer, fun s t ht => ?_⟩, hslashings ▸ h.slashed, fun v t ht => ?_,
    hsync ▸ h.unseated⟩
  · rw [hwalked.block, Option.map_eq_some_iff] at ht
    obtain ⟨k, hk, rfl⟩ := ht
    exact h.purse.manual s k hk
  · rw [hwalked.tally, Option.map_eq_some_iff] at ht
    obtain ⟨k, hk, rfl⟩ := ht
    have hkeep : (b.settle b.inclusions v k).maxAttesterReward = k.maxAttesterReward := by
      unfold settle
      split <;> rfl
    rw [hkeep]
    exact h.unrewarded v k hk

/-- Where nothing has been done there is nothing to add up. -/
lemma Ready.contained (h : b.Ready net w 0) : b.Contained net w where
  scaled := h.scaled
  attester v t ht := by
    rw [h.unrewarded v t ht]
    exact Nat.zero_le _
  proposer v := Nat.le_trans (h.purse.proposer v) (Nat.zero_le _)
  slashing := h.slashed
  sync v := by
    rw [h.unseated v]
    exact Nat.zero_le _

/-- Maxima are all that is left to be computed. -/
lemma Attested.contained (h : b.Attested net w m) (hm : m ≤ 5 * 2 ^ 59)
    (hc : c = { b with tallies := c.tallies })
    (hcap : ∀ (v : ValidatorIndex) (t), c.tallies[v]? = some t → t.maxAttesterReward ≤ 2 ^ 59) :
    c.Contained net w := by
  have hproposers : c.maxProposerRewards = b.maxProposerRewards := by rw [hc]
  have hslashings : c.maxSlashingRewards = b.maxSlashingRewards := by rw [hc]
  have hsync : c.maxSyncRewards = b.maxSyncRewards := by rw [hc]
  refine ⟨(h.toBacked.frame hc).scaled, hcap, fun v => ?_, hslashings ▸ h.slashed, fun v => ?_⟩
  · rw [hproposers]
    exact Nat.le_trans (h.purse.proposer v) hm
  · rw [hsync, h.unseated v]
    exact Nat.zero_le _

/-- Whatever the seats of the committee come to, the other figures are those of before. -/
lemma Contained.seat (h : b.Contained net w)
    (hc : c = { b with maxSyncRewards := c.maxSyncRewards })
    (hsync : ∀ v, c.maxSyncRewards.amount v ≤ 2 ^ 63) : c.Contained net w := by
  have hsetting : c.setting = b.setting := by rw [hc]; rfl
  have hproposers : c.maxProposerRewards = b.maxProposerRewards := by rw [hc]
  have hslashings : c.maxSlashingRewards = b.maxSlashingRewards := by rw [hc]
  have htallies : c.tallies = b.tallies := by rw [hc]
  exact ⟨h.scaled.of_setting hsetting, htallies ▸ h.attester, hproposers ▸ h.proposer,
    hslashings ▸ h.slashing, hsync⟩

lemma ready_fresh (hw : w.AtScale net) (hnet : net.Usual) (phase : Phase)
    (preference : ReportPreference) :
    ∃ b, fresh net phase preference w = .ok b ∧ b.Ready net w 0 ∧
      ∀ v, b.maxSlashingRewards.amount v = 0 := by
  obtain ⟨current, hcurrent, hcurrentBounds⟩ := hw.activeBalance hnet (s := w.current)
    (by simp [Window.snapshots])
  obtain ⟨next, hnext, hnextBounds⟩ := hw.activeBalance hnet (s := w.next)
    (by simp [Window.snapshots])
  obtain ⟨b, hb⟩ : ∃ b, fresh net phase preference w = .ok b := by
    rw [fresh, hcurrent, hnext]
    exact ⟨_, rfl⟩
  have hmanual : ∀ s t, b.blockTallies.get? s = some t → t.manualReward ≤ 0 := by
    intro s t ht
    rw [blockTallies_fresh hb] at ht
    split at ht
    · cases ht
      exact Nat.le_refl _
    · cases ht
  have hunvoted := unvoted_fresh hb
  simp only [fresh, Calc.bind_ok, Calc.pure_ok, hcurrent, hnext] at hb
  obtain ⟨_, ⟨⟩, _, ⟨⟩, rfl⟩ := hb
  refine ⟨_, ?_, ⟨⟨rfl, rfl, hcurrentBounds, hnextBounds⟩, ⟨fun v => Nat.le_refl _, hmanual⟩,
    fun v => Nat.zero_le _, hunvoted, fun v t ht => ?_, fun f => ?_, fun v => rfl⟩, fun v => rfl⟩
  · rw [fresh, hcurrent, hnext]
    rfl
  · obtain ⟨_, -, rfl⟩ := List.mem_map.1 (List.mem_of_getElem? ht)
    rfl
  · cases f <;> rfl

/-- The analysed validators are rewarded one by one, whatever computes their rewards. -/
lemma forM_rewards_fits {cap : Gwei} {pass : ValidatorIndex → Pass Unit}
    (h : b.Attested net w m)
    (hpass : ∀ v seen c, v ∉ seen → c = { b with tallies := c.tallies } → c.Rewarded cap seen →
      Fits (fun _ d => d = { c with tallies := d.tallies } ∧ d.Rewarded cap (seen ++ [v]))
        (pass v c)) :
    Fits (fun _ c => c = { b with tallies := c.tallies } ∧
      ∀ (v : ValidatorIndex) (t), c.tallies[v]? = some t → t.maxAttesterReward ≤ cap)
      (b.analysedValidators.forM pass b) := by
  refine (Meets.forM (J := fun seen (c : Bundle) => c = { b with tallies := c.tallies } ∧
    c.Rewarded cap seen) ⟨rfl, rewarded_nil h.unrewarded⟩ fun seen v hv c hc => ?_).mono
      fun _ c _ hc => ⟨hc.1, hc.2.capped⟩
  have hnew : v ∉ seen := by
    have hnodup : (seen ++ [v]).Nodup := (nodup_analysedValidators b).sublist hv.sublist
    exact fun hmem => (List.nodup_append.1 hnodup).2.2 v hmem v (by simp) rfl
  refine (hpass v seen c hnew hc.1 hc.2).mono fun _ d _ hd => ⟨?_, hd.2⟩
  rw [hd.1, hc.1]

end Bundle

open EpochRewards.Bundle

variable {net : Network} {w : Window} {b c : Bundle} {m : Nat}

/-! ### Passes before Altair -/

namespace Phase0

lemma share_fits (net : Network) (r : Nat) (_ : r ≤ 4 * 10 ^ 9) :
    ∃ p ≤ r, proposerShare net r = .ok p :=
  ⟨_, Nat.div_le_self _ _, rfl⟩

lemma baseReward_fits (hnet : net.Usual) (hw : w.AtScale net) (hb : b.Scaled net w)
    (v : ValidatorIndex) :
    Calc.Errs (fun e => ¬ e.IsOverflow) (baseReward b v) ∧
      ∀ base, baseReward b v = .ok base →
        base ≤ 2 ^ 30 ∧ base ≤ w.current.effectiveBalanceOf v := by
  have hreward {x : Validator} (hv : w.current.validator? v = some x) :
      ∃ r, net.phase0BaseReward x.effectiveBalance b.currentActiveBalance = .ok r ∧ r ≤ 2 ^ 30 ∧
        r ≤ w.current.effectiveBalanceOf v := by
    have hbalance := hw.effectiveBalance_le (s := w.current) (by simp [Window.snapshots]) hv
    have heff : w.current.effectiveBalanceOf v = x.effectiveBalance := by
      simp [Snapshot.effectiveBalanceOf, hv]
    rw [heff]
    exact hnet.phase0BaseReward hbalance hb.current.1
  unfold baseReward
  rw [hb.window, hb.network]
  constructor
  · refine .bind (.orFail fun _ => id) fun x hx => ?_
    rw [Snapshot.registered, Calc.orFail_ok] at hx
    obtain ⟨r, hr, -⟩ := hreward hx
    rw [hr]
    exact .fault (.ok r)
  · intro base hbase
    simp only [Calc.bind_ok, Snapshot.registered, Calc.orFail_ok, Calc.fault_ok] at hbase
    obtain ⟨x, hx, hbase⟩ := hbase
    obtain ⟨r, hr, hle⟩ := hreward hx
    rw [hr] at hbase
    cases hbase
    exact hle

/-- A payment for an inclusion is part of the balance of the validator. -/
lemma payInclusion_fits (hnet : net.Usual) (hw : w.AtScale net) (hc : c.Attested net w m)
    (credit : Credit) (h : m + w.current.effectiveBalanceOf credit.validator < Word.bound) :
    Fits (fun _ d => d.Attested net w (m + w.current.effectiveBalanceOf credit.validator))
      (payInclusion credit c) := by
  unfold payInclusion
  split
  · obtain ⟨herrs, hbase⟩ := baseReward_fits hnet hw hc.scaled credit.validator
    refine .get_bind (.lift_bind herrs fun base hok => ?_)
    have hle : base / c.network.proposerQuotient.val
        ≤ w.current.effectiveBalanceOf credit.validator :=
      Nat.le_trans (Nat.div_le_self _ _) (hbase base hok).2
    have hroom := Nat.lt_of_le_of_lt (Nat.add_le_add_left hle m) h
    refine (payProposer_fits hc.purse hroom (Block.missed credit.slot credit.proposer)).mono
      fun _ d _ hd => ?_
    exact (hc.pays hd).mono (Nat.add_le_add_left hle m)
  · exact .pure (hc.mono (Nat.le_add_right m _))

lemma processInclusionDelays_fits (hnet : net.Usual) (hw : w.AtScale net)
    (hb : b.Ready net w 0) :
    Fits (fun _ c => c.Attested net w (2 ^ 56)) (processInclusionDelays b) := by
  refine (processAttestations_fits hnet hw hb.scaled hb.unvoted hb.unattested).bind
    fun cs c hc _ => ?_
  -- every credit is of another validator
  have hnodup : (cs.map (·.validator)).Nodup := by
    obtain ⟨-, -, -, rfl⟩ := processAttestations_ok hb.unvoted hc
    rw [credited, List.map_map]
    exact nodup_keys_firsts _
  have hsum : (cs.map fun x => w.current.effectiveBalanceOf x.validator).sum ≤ 2 ^ 56 := by
    have hle := sum_effectiveBalanceOf_le hw (s := w.current) (by simp [Window.snapshots]) hnodup
    rwa [List.map_map] at hle
  refine (Meets.forM (J := fun done (d : Bundle) => d.Attested net w
    ((done.map fun x => w.current.effectiveBalanceOf x.validator).sum)) (hb.attested hw hc)
      fun done x hx d hd => ?_).mono fun _ _ _ hd => Attested.mono hd hsum
  have hroom := Nat.lt_of_le_of_lt (Nat.le_trans (sum_le_of_initial hx) hsum)
    (show 2 ^ 56 < Word.bound by norm_num [Word.bound])
  have hpay := payInclusion_fits hnet hw hd x hroom
  rwa [List.map_append, List.sum_append, List.map_singleton, List.sum_singleton]

lemma flagReward_fits (hnet : net.Usual) (hw : w.AtScale net) (hb : b.Backed net w)
    (v : ValidatorIndex) {base total k : Nat} (hbase : base ≤ 2 ^ 30) (htotal : total ≤ k * 2 ^ 57)
    (hk : k ≤ 3) (flag : Flag) :
    Calc.Errs (fun e => ¬ e.IsOverflow) (flagReward b v base total flag) ∧
      ∀ r, flagReward b v base total flag = .ok r → r ≤ (k + 1) * 2 ^ 57 := by
  have hattesting : b.attestingBalance.get flag / b.network.balanceIncrement.val ≤ 72057594 := by
    rw [hb.scaled.network]
    exact hnet.increments_le (hb.attesting flag)
  have hproduct : base * (b.attestingBalance.get flag / b.network.balanceIncrement.val)
      ≤ 2 ^ 57 :=
    calc base * (b.attestingBalance.get flag / b.network.balanceIncrement.val)
        ≤ 2 ^ 30 * 72057594 := Nat.mul_le_mul hbase hattesting
      _ ≤ 2 ^ 57 := by norm_num
  have hfits : 2 ^ 57 < Word.bound := by norm_num [Word.bound]
  have hroom (q : Nat) (hq : q ≤ 2 ^ 57) :
      total + q < Word.bound ∧ total + q ≤ (k + 1) * 2 ^ 57 := by
    unfold Word.bound
    omega
  unfold flagReward
  constructor
  · refine .bind (isFlagPossible_fits hnet hw hb.scaled v flag) fun possible _ => ?_
    split
    · refine .known_bind (Word.mul_eq (Nat.lt_of_le_of_lt hproduct hfits))
        (.bind (.fault Word.no_overflow_div) fun q hq => ?_)
      rw [Calc.fault_ok, Word.div_ok] at hq
      rw [← hq.2]
      exact .fault (Word.errs_add_of_lt
        (hroom _ (Nat.le_trans (Nat.div_le_self _ _) hproduct)).1)
    · exact .ok _
  · intro r hr
    simp only [Calc.bind_ok] at hr
    obtain ⟨possible, -, hr⟩ := hr
    split at hr
    · simp only [Calc.bind_ok, Calc.fault_ok, Word.mul_ok, Word.div_ok, Word.add_ok] at hr
      obtain ⟨_, ⟨-, rfl⟩, _, ⟨-, rfl⟩, -, rfl⟩ := hr
      exact (hroom _ (Nat.le_trans (Nat.div_le_self _ _) hproduct)).2
    · cases hr
      exact Nat.le_trans htotal (Nat.mul_le_mul_right _ (Nat.le_succ k))

lemma delayReward_fits (hw : w.AtScale net) (hb : b.Scaled net w) (hnet : net.Usual)
    (v : ValidatorIndex) {base total : Nat} (hbase : base ≤ 2 ^ 30) (htotal : total ≤ 3 * 2 ^ 57) :
    Calc.Errs (fun e => ¬ e.IsOverflow) (delayReward b v base total) ∧
      ∀ r, delayReward b v base total = .ok r → r ≤ 2 ^ 59 := by
  have hroom (q : Nat) (hq : q ≤ base) : total + q < Word.bound ∧ total + q ≤ 2 ^ 59 := by
    unfold Word.bound
    omega
  have hshare {x delay rest q : Nat} (hrest : base - x = rest) (hq : rest / delay = q) :
      q ≤ base := by
    rw [← hq, ← hrest]
    exact Nat.le_trans (Nat.div_le_self _ _) (Nat.sub_le _ _)
  unfold delayReward
  rw [hb.window]
  split
  · refine ⟨.ok _, fun r hr => ?_⟩
    cases hr
    exact (hroom 0 (Nat.zero_le _)).2
  · next slot hslot =>
    have hlimit : b.network.slotsPerEpoch.val ≤ 2 ^ 32 := by
      rw [hb.network]
      exact hnet.epoch.trans (by norm_num)
    constructor
    · refine .bind (firstOpportunity_fits hw hb hslot hlimit) fun delay _ => ?_
      split
      · exact .ok _
      · refine .bind (.fault Word.no_overflow_sub) fun rest hrest =>
          .bind (.fault Word.no_overflow_div) fun q hq => ?_
        rw [Calc.fault_ok, Word.sub_ok] at hrest
        rw [Calc.fault_ok, Word.div_ok] at hq
        exact .fault (Word.errs_add_of_lt (hroom q (hshare hrest.2 hq.2)).1)
    · intro r hr
      simp only [Calc.bind_ok] at hr
      obtain ⟨delay, -, hr⟩ := hr
      split at hr
      · cases hr
        exact (hroom 0 (Nat.zero_le _)).2
      · simp only [Calc.bind_ok, Calc.fault_ok, Word.add_ok, Word.sub_ok, Word.div_ok] at hr
        obtain ⟨rest, ⟨-, hrest⟩, q, ⟨-, hq⟩, -, rfl⟩ := hr
        exact (hroom q (hshare hrest hq)).2

lemma flagRewards_fits (hnet : net.Usual) (hw : w.AtScale net) (hb : b.Backed net w)
    (v : ValidatorIndex) {base : Nat} (hbase : base ≤ 2 ^ 30) :
    Calc.Errs (fun e => ¬ e.IsOverflow) (Flag.all.foldlM (flagReward b v base) 0) ∧
      ∀ r, Flag.all.foldlM (flagReward b v base) 0 = .ok r → r ≤ 3 * 2 ^ 57 :=
  Calc.Errs.foldlM (J := fun done total => total ≤ done.length * 2 ^ 57) (Nat.zero_le _)
    fun done flag hdone total htotal => by
      have hlen : done.length + 1 ≤ 3 := length_le_of_initial hdone
      rw [List.length_append, List.length_singleton]
      exact flagReward_fits hnet hw hb v hbase htotal (Nat.le_of_succ_le hlen) flag

lemma maxReward_fits (hnet : net.Usual) (hw : w.AtScale net) (hb : b.Backed net w)
    (v : ValidatorIndex) :
    Calc.Errs (fun e => ¬ e.IsOverflow) (maxReward b v) ∧
      ∀ r, maxReward b v = .ok r → r ≤ 2 ^ 59 := by
  obtain ⟨hbase, hbaseLe⟩ := baseReward_fits hnet hw hb.scaled v
  have hdelay {base total : Nat} (hok : baseReward b v = .ok base)
      (htotal : Flag.all.foldlM (flagReward b v base) 0 = .ok total) :=
    delayReward_fits hw hb.scaled hnet v (hbaseLe base hok).1
      ((flagRewards_fits hnet hw hb v (hbaseLe base hok).1).2 total htotal)
  unfold maxReward
  constructor
  · exact hbase.bind fun base hok =>
      (flagRewards_fits hnet hw hb v (hbaseLe base hok).1).1.bind fun total htotal =>
        (hdelay hok htotal).1
  · intro r hr
    simp only [Calc.bind_ok] at hr
    obtain ⟨base, hok, total, htotal, hr⟩ := hr
    exact (hdelay hok htotal).2 r hr

lemma processMaxRewards_fits (hnet : net.Usual) (hw : w.AtScale net) (hb : b.Attested net w m)
    (hm : m ≤ 5 * 2 ^ 59) : Fits (fun _ c => c.Contained net w) (processMaxRewards b) := by
  refine .get_bind ((forM_rewards_fits hb fun v seen c hv hc hnew => ?_).mono
    fun _ c _ hc => hb.contained hm hc.1 hc.2)
  obtain ⟨herrs, hle⟩ := maxReward_fits hnet hw (hb.toBacked.frame hc) v
  exact .get_bind (.lift_bind (.orFail fun _ => id) fun _ _ => .lift_bind herrs fun r hr =>
    addAttesterReward_fits hnew hv (hle r hr) (by norm_num [Word.bound]))

lemma prepare_fits (hnet : net.Usual) (hw : w.AtScale net) (hb : b.Ready net w 0)
    (hzero : ∀ v, b.maxSlashingRewards.amount v = 0) :
    Fits (fun _ c => c.Contained net w) (prepare b) := by
  refine .get_bind ?_
  split
  · refine (processSlashings_fits (share_fits _) hnet hw hb.scaled hzero).bind fun _ c _ hc => ?_
    have hready := hb.slash hc
    refine (indexOpportunities_fits hnet hw hready.scaled).bind fun _ d _ hd => ?_
    have hready := hready.index hd
    refine (processInclusionDelays_fits hnet hw hready).bind fun _ e _ he => ?_
    exact processMaxRewards_fits hnet hw he (by norm_num)
  · exact .pure hb.contained

end Phase0

/-! ### Passes since Altair -/

namespace Altair

lemma share_fits (r : Nat) (hr : r ≤ 4 * 10 ^ 9) : ∃ p ≤ r, proposerShare r = .ok p := by
  have harith (r : Nat) (hr : r ≤ 4 * 10 ^ 9) : r * 8 < Word.bound ∧ r * 8 / 64 ≤ r := by
    unfold Word.bound
    omega
  have hmul : Word.mul r proposerWeight = .ok (r * proposerWeight) := Word.mul_eq (harith r hr).1
  exact ⟨r * proposerWeight / weightDenominator, (harith r hr).2,
    Calc.bind_ok.2 ⟨_, hmul, rfl⟩⟩

/-! ### Sync committee -/

/-- The seats of all slots share what the committee is due. -/
lemma seatReward_fits (hnet : net.Usual) (hb : b.Scaled net w) :
    ∃ r, seatReward b = .ok r ∧
      r * (net.slotsPerEpoch.val * net.syncCommitteeSize.val) ≤ 2 ^ 43 := by
  obtain ⟨p, hp, hle⟩ := hnet.baseRewardPerIncrement hb.next.1
  have htotal : p * (b.nextActiveBalance / net.balanceIncrement.val) ≤ 2023907 * 72057594 :=
    Nat.mul_le_mul hle (hnet.increments_le hb.next.2)
  have harith (total : Nat) (h : total ≤ 2023907 * 72057594) :
      total < Word.bound ∧ total * 2 < Word.bound ∧ total * 2 / 64 ≤ 2 ^ 43 := by
    unfold Word.bound
    omega
  obtain ⟨hfits, hdouble, hshare⟩ := harith _ htotal
  have hmul : Word.mul p (b.nextActiveBalance / net.balanceIncrement.val)
      = .ok (p * (b.nextActiveBalance / net.balanceIncrement.val)) := Word.mul_eq hfits
  have hshared : Word.mul (p * (b.nextActiveBalance / net.balanceIncrement.val)) syncWeight
      = .ok (p * (b.nextActiveBalance / net.balanceIncrement.val) * syncWeight) :=
    Word.mul_eq hdouble
  unfold seatReward
  dsimp only
  rw [hb.network]
  refine ⟨p * (b.nextActiveBalance / net.balanceIncrement.val) * syncWeight / weightDenominator
    / net.slotsPerEpoch.val / net.syncCommitteeSize.val, ?_, ?_⟩
  · exact Calc.bind_ok.2 ⟨p, hp, Calc.bind_ok.2 ⟨_, hmul, Calc.bind_ok.2 ⟨_, hshared, rfl⟩⟩⟩
  · rw [Nat.div_div_eq_div_mul]
    exact Nat.le_trans (Nat.div_mul_le_self _ _) hshare

/-- What the aggregate of one block can come to. -/
lemma paySyncAggregate_fits (hw : w.AtScale net) (hc : c.Ready net w m)
    {perBit : Gwei} (hper : perBit * net.syncCommitteeSize.val ≤ 2 ^ 41) {block : Block}
    (hblock : block ∈ w.next.blocks) (h : m + 2 ^ 41 < Word.bound) :
    Fits (fun _ d => d.Ready net w (m + 2 ^ 41)) (paySyncAggregate perBit block c) := by
  unfold paySyncAggregate
  cases haggregate : block.syncAggregate with
  | none => exact .pure (hc.mono (Nat.le_add_right m _))
  | some aggregate =>
    have hpay : perBit * aggregate.bits.countOnes ≤ 2 ^ 41 :=
      Nat.le_trans (Nat.mul_le_mul_left _ (hw.participants block hblock aggregate haggregate)) hper
    have hword := Nat.lt_of_le_of_lt hpay (show 2 ^ 41 < Word.bound by norm_num [Word.bound])
    have hsum := Nat.lt_of_le_of_lt (Nat.add_le_add_left hpay m) h
    refine .known_bind (Word.mul_eq hword)
      ((payProposer_fits hc.purse hsum block).mono fun _ d _ hd => ?_)
    exact (hc.pays hd).mono (Nat.add_le_add_left hpay m)

/-- What the aggregates of all blocks can come to. -/
lemma processSyncAggregates_fits (hnet : net.Usual) (hw : w.AtScale net)
    (hb : b.Ready net w 0) :
    Fits (fun _ c => c.Ready net w (2 ^ 61)) (processSyncAggregates b) := by
  obtain ⟨r, hr, hle⟩ := seatReward_fits hnet hb.scaled
  have hseats : r * net.syncCommitteeSize.val ≤ 2 ^ 43 :=
    Nat.le_trans (Nat.mul_le_mul_left r (Nat.le_mul_of_pos_left _ net.slotsPerEpoch.pos)) hle
  have hreward : r ≤ 2 ^ 43 :=
    Nat.le_trans (Nat.le_mul_of_pos_right r net.syncCommitteeSize.pos) hseats
  have hproposer (r : Nat) (hr : r ≤ 2 ^ 43) : r * proposerWeight < Word.bound ∧
      r * proposerWeight / (weightDenominator - proposerWeight) * 7 ≤ r := by
    unfold Word.bound proposerWeight weightDenominator
    omega
  obtain ⟨hfits, hseventh⟩ := hproposer r hreward
  have hper : r * proposerWeight / (weightDenominator - proposerWeight) * net.syncCommitteeSize.val
      ≤ 2 ^ 41 := by
    have hsum := Nat.le_trans (Nat.mul_le_mul_right net.syncCommitteeSize.val hseventh) hseats
    rw [Nat.mul_right_comm] at hsum
    have harith (n : Nat) (hn : n * 7 ≤ 2 ^ 43) : n ≤ 2 ^ 41 := by omega
    exact harith _ hsum
  have hblocks : w.next.proposedBlocks.length ≤ 2 ^ 20 :=
    Nat.le_trans (List.length_filter_le _ _) hw.blocks
  have hroom (k : Nat) (hk : k + 1 ≤ 2 ^ 20) : k * 2 ^ 41 + 2 ^ 41 < Word.bound := by
    unfold Word.bound
    omega
  refine .get_bind (.known_bind hr (.known_bind (Word.mul_eq hfits) ?_))
  rw [hb.scaled.window]
  refine (Meets.forM (J := fun done (c : Bundle) => c.Ready net w (done.length * 2 ^ 41)) (by
    rwa [List.length_nil, Nat.zero_mul]) fun done block hblock c hc => ?_).mono fun _ c _ hc => ?_
  · have hdone := Nat.le_trans (length_le_of_initial hblock) hblocks
    have hmem : block ∈ w.next.blocks := List.mem_of_mem_filter (hblock.subset (by simp))
    rw [List.length_append, List.length_singleton, Nat.succ_mul]
    exact paySyncAggregate_fits hw hc hper hmem (hroom _ hdone)
  · refine hc.mono ?_
    calc w.next.proposedBlocks.length * 2 ^ 41 ≤ 2 ^ 20 * 2 ^ 41 := Nat.mul_le_mul_right _ hblocks
      _ = 2 ^ 61 := by norm_num

/-- The bundle `b` with other rewards of the sync committee, of which nobody has more than `m`. -/
def SeatedBy (b : Bundle) (m : Nat) (c : Bundle) : Prop :=
  c = { b with maxSyncRewards := c.maxSyncRewards } ∧ ∀ v, c.maxSyncRewards.amount v ≤ m

lemma rewardSeat_fits {reward : Gwei} (hc : SeatedBy b m c) (h : m + reward < Word.bound)
    (key : PublicKey) : Fits (fun _ d => SeatedBy b (m + reward) d) (rewardSeat reward key c) := by
  refine .get_bind (.lift_bind (.orFail fun _ => id) fun v _ => .get_bind ?_)
  obtain ⟨l, hl, hle⟩ := Ledger.credit_fits hc.2 h v
  exact .known_bind hl (.modify ⟨by rw [hc.1], hle⟩)

/-- What the seats of a committee can come to. -/
lemma processSyncCommittee_fits (hnet : net.Usual) (hw : w.AtScale net) (hb : b.Scaled net w)
    (hzero : ∀ v, b.maxSyncRewards.amount v = 0) :
    Fits (fun _ c => SeatedBy b (2 ^ 63) c) (processSyncCommittee b) := by
  obtain ⟨r, hr, hle⟩ := seatReward_fits hnet hb
  have hnone : SeatedBy b 0 b := ⟨rfl, fun v => Nat.le_of_eq (hzero v)⟩
  refine .get_bind ?_
  rw [hb.window, hb.network]
  cases hcommittee : w.next.syncCommittee with
  | none => exact .pure ⟨rfl, fun v => Nat.le_trans (hnone.2 v) (Nat.zero_le _)⟩
  | some committee =>
    have hseats := hw.seats committee hcommittee
    have hreward : r * (net.slotsPerEpoch.val - w.next.missedSlots.length) ≤ 2 ^ 43 := by
      refine Nat.le_trans (Nat.mul_le_mul_left r (Nat.le_trans (Nat.sub_le _ _) ?_)) hle
      exact Nat.le_mul_of_pos_right _ net.syncCommitteeSize.pos
    have hroom (k x : Nat) (hk : k + 1 ≤ 2 ^ 20) (hx : x ≤ 2 ^ 43) : k * x + x < Word.bound := by
      have hkx := Nat.mul_le_mul hk hx
      rw [Nat.succ_mul] at hkx
      unfold Word.bound
      omega
    have hword := Nat.lt_of_le_of_lt hreward (show 2 ^ 43 < Word.bound by norm_num [Word.bound])
    refine .known_bind hr (.known_bind (Word.mul_eq hword) ?_)
    refine (Meets.forM (J := fun done => SeatedBy b
      (done.length * (r * (net.slotsPerEpoch.val - w.next.missedSlots.length)))) ?_
        fun done key hkey c hc => ?_).mono fun _ c _ hc => ⟨hc.1, fun v => ?_⟩
    · rwa [List.length_nil, Nat.zero_mul]
    · have hdone := Nat.le_trans (length_le_of_initial hkey) hseats
      rw [List.length_append, List.length_singleton, Nat.succ_mul]
      exact rewardSeat_fits hc (hroom _ _ hdone hreward) key
    · calc c.maxSyncRewards.amount v
          ≤ committee.keys.length * (r * (net.slotsPerEpoch.val - w.next.missedSlots.length)) :=
            hc.2 v
        _ ≤ 2 ^ 20 * 2 ^ 43 := Nat.mul_le_mul hseats hreward
        _ = 2 ^ 63 := by norm_num

end Altair

end EpochRewards
