import EpochRewards.Proofs.Failures
import EpochRewards.Proofs.Payments
import EpochRewards.Proofs.Scale
import EpochRewards.Proofs.Settings
import Mathlib

/-!
Headroom: sums of rewards and balances stay words at the scale of networks.

What a pass has added up after some of its steps is bounded by what those steps may add at most.
No step can then overflow, however the pass goes on.
-/

namespace EpochRewards

/-! ### Partial sums -/

lemma sum_le_of_initial {α : Type} {f : α → Nat} {done xs : List α} {x : α}
    (h : done ++ [x] <+: xs) : (done.map f).sum + f x ≤ (xs.map f).sum := by
  have hle := (h.sublist.map f).sum_le_sum fun _ _ => Nat.zero_le _
  rwa [List.map_append, List.sum_append, List.map_singleton, List.sum_singleton] at hle

lemma length_le_of_initial {α : Type} {done xs : List α} {x : α} (h : done ++ [x] <+: xs) :
    done.length + 1 ≤ xs.length := by
  have hle := h.length_le
  rwa [List.length_append, List.length_singleton] at hle

/-- What a ledger holds is at most what was booked in all. -/
lemma Ledger.credit_fits {l : Ledger Nat} {m n : Nat} (hl : ∀ j, l.amount j ≤ m)
    (h : m + n < Word.bound) (k : Nat) :
    ∃ l', l.credit k n = .ok l' ∧ ∀ j, l'.amount j ≤ m + n := by
  have hfits : l.amount k + n < Word.bound := Nat.lt_of_le_of_lt (Nat.add_le_add_right (hl k) n) h
  have hcredit : l.credit k n = .ok (l.insert k (l.amount k + n)) := by
    rw [credit, Word.add_eq hfits]
    rfl
  refine ⟨_, hcredit, fun j => ?_⟩
  have hj := hl j
  rw [credit_ok hcredit]
  split
  · exact Nat.add_le_add_right hj n
  · exact Nat.le_trans hj (Nat.le_add_right m n)

namespace Pass

/-- The pass ends as `Q` says or in an error, not in an overflow. -/
abbrev Fits {α : Type} (Q : α → Bundle → Prop)
    (r : EStateM.Result (Failure RewardError) Bundle α) : Prop :=
  Meets (fun e _ => ¬ e.IsOverflow) Q r

end Pass

namespace Bundle

open Pass

variable {net : Network} {w : Window} {b c : Bundle} {m n : Nat}

/-- A bundle of the window whose active balances are of the size that networks have. -/
structure Scaled (net : Network) (w : Window) (b : Bundle) : Prop where
  network : b.network = net
  window : b.window = w
  current : 10 ^ 9 ≤ b.currentActiveBalance ∧ b.currentActiveBalance ≤ 2 ^ 56
  next : 10 ^ 9 ≤ b.nextActiveBalance ∧ b.nextActiveBalance ≤ 2 ^ 56

lemma Scaled.of_setting (h : b.Scaled net w) (hc : c.setting = b.setting) : c.Scaled net w := by
  obtain ⟨hnetwork, -, -, hwindow, hcurrent, hnext⟩ := setting_eq_iff.1 hc
  exact ⟨hnetwork.trans h.network, hwindow.trans h.window, hcurrent ▸ h.current, hnext ▸ h.next⟩

/-! ### Slashings -/

/-- The bundle `b` with other slashing rewards, of which nobody has more than `m`. -/
def SlashedBy (b : Bundle) (m : Nat) (c : Bundle) : Prop :=
  c = { b with maxSlashingRewards := c.maxSlashingRewards } ∧
    ∀ v, c.maxSlashingRewards.amount v ≤ m

lemma creditSlashing_fits (hc : SlashedBy b m c) (h : m + n < Word.bound) (v : ValidatorIndex) :
    Fits (fun _ d => SlashedBy b (m + n) d) (creditSlashing v n c) := by
  obtain ⟨l, hl, hle⟩ := Ledger.credit_fits hc.2 h v
  exact .get_bind (.known_bind hl (.modify ⟨by rw [hc.1], hle⟩))

/-- What a report earns is at most what the largest balance is worth. -/
lemma rewardSlashing_fits {share : ShareRule}
    (hshare : ∀ r ≤ 4 * 10 ^ 9, ∃ p ≤ r, share r = .ok p) (hnet : net.Usual) (hw : w.AtScale net)
    (hb : b.Scaled net w) (hc : SlashedBy b m c) (h : m + 4 * 10 ^ 9 < Word.bound)
    (block : Block) (v : ValidatorIndex) :
    Fits (fun _ d => SlashedBy b (m + 4 * 10 ^ 9) d) (rewardSlashing share block v c) := by
  have hnetwork : c.network = net := by rw [hc.1, ← hb.network]
  have hwindow : c.window = w := by rw [hc.1, ← hb.window]
  refine .get_bind (.lift_bind ?_ fun validator hv => ?_)
  · exact .orFail fun _ => id
  rw [Snapshot.registered, hwindow, Calc.orFail_ok] at hv
  have hbalance := hw.effectiveBalance_le (s := w.next) (by simp [Window.snapshots]) hv
  have hreward : validator.effectiveBalance / c.network.whistleblowerQuotient.val ≤ 4 * 10 ^ 9 := by
    rw [hnetwork]
    calc validator.effectiveBalance / net.whistleblowerQuotient.val
        ≤ 2048 * 10 ^ 9 / 512 := Nat.div_le_div hbalance hnet.whistleblower (by norm_num)
      _ ≤ 4 * 10 ^ 9 := by norm_num
  obtain ⟨p, hp, hshare⟩ := hshare _ hreward
  have hsplit : SlashingReward.split
      (validator.effectiveBalance / c.network.whistleblowerQuotient.val) share
        = .ok ⟨p, validator.effectiveBalance / c.network.whistleblowerQuotient.val - p⟩ := by
    rw [SlashingReward.split, hshare]
    rfl
  refine .known_bind hsplit ?_
  have hroom (p r : Nat) (hr : r ≤ 4 * 10 ^ 9) (hpr : p ≤ r) :
      m + p < Word.bound ∧ m + p + (r - p) < Word.bound ∧ m + p + (r - p) ≤ m + 4 * 10 ^ 9 := by
    omega
  obtain ⟨hfirst, hsecond, hle⟩ := hroom _ _ hreward hp
  refine (creditSlashing_fits hc hfirst _).bind fun _ d _ hd =>
    (creditSlashing_fits hd hsecond _).mono fun _ e _ he => ⟨he.1, fun v => ?_⟩
  exact Nat.le_trans (he.2 v) hle

lemma processSlashings_fits {share : ShareRule}
    (hshare : ∀ r ≤ 4 * 10 ^ 9, ∃ p ≤ r, share r = .ok p) (hnet : net.Usual) (hw : w.AtScale net)
    (hb : b.Scaled net w) (hzero : ∀ v, b.maxSlashingRewards.amount v = 0) :
    Fits (fun _ c => SlashedBy b (2 ^ 62) c) (processSlashings share b) := by
  -- each block may name some of the reported validators, and all of them are few enough
  have hreports : (w.next.proposedBlocks.map (·.slashedIndices.length)).sum ≤ 2 ^ 30 :=
    Nat.le_trans ((List.filter_sublist.map _).sum_le_sum fun _ _ => Nat.zero_le _) hw.slashed
  have hroom (k : Nat) (hk : k + 1 ≤ 2 ^ 30) : k * (4 * 10 ^ 9) + 4 * 10 ^ 9 < Word.bound := by
    unfold Word.bound
    omega
  have hall (k : Nat) (hk : k ≤ 2 ^ 30) : k * (4 * 10 ^ 9) ≤ 2 ^ 62 := by omega
  refine .get_bind ?_
  rw [hb.window]
  refine (Meets.forM (J := fun done c =>
    SlashedBy b ((done.map (·.slashedIndices.length)).sum * (4 * 10 ^ 9)) c) ⟨rfl, fun v => ?_⟩
      fun done block hblock c hc => ?_).mono fun _ c _ hc =>
        ⟨hc.1, fun v => Nat.le_trans (hc.2 v) (hall _ hreports)⟩
  · rw [hzero v]
    exact Nat.zero_le _
  have hdone := Nat.le_trans (sum_le_of_initial hblock) hreports
  refine (Meets.forM (J := fun seen c => SlashedBy b
    (((done.map (·.slashedIndices.length)).sum + seen.length) * (4 * 10 ^ 9)) c) hc
      fun seen v hv d hd => ?_).mono fun _ e _ he => ?_
  · have hseen := length_le_of_initial hv
    have hstep := rewardSlashing_fits hshare hnet hw hb hd (hroom _ (by omega)) block v
    rwa [List.length_append, List.length_singleton, ← Nat.add_assoc, Nat.succ_mul]
  · rwa [List.map_append, List.sum_append, List.map_singleton, List.sum_singleton]

/-! ### Payments to proposers -/

/-- No proposer and no block has been paid more than `m`. -/
structure Purse (m : Nat) (b : Bundle) : Prop where
  proposer : ∀ v, b.maxProposerRewards.amount v ≤ m
  manual : ∀ s t, b.blockTallies.get? s = some t → t.manualReward ≤ m

/-- What a list of payments comes to in all. -/
def totalOf (ps : List Payment) : Gwei := (ps.map (·.amount)).sum

lemma incomeOf_le (ps : List Payment) (v : ValidatorIndex) : Payment.incomeOf ps v ≤ totalOf ps :=
  (List.filter_sublist.map _).sum_le_sum fun _ _ => Nat.zero_le _

lemma incomeAt_le (ps : List Payment) (s : Slot) : Payment.incomeAt ps s ≤ totalOf ps :=
  (List.filter_sublist.map _).sum_le_sum fun _ _ => Nat.zero_le _

lemma Purse.mono (h : b.Purse m) (hmn : m ≤ n) : b.Purse n where
  proposer v := Nat.le_trans (h.proposer v) hmn
  manual s t ht := Nat.le_trans (h.manual s t ht) hmn

lemma Pays.purse {ps : List Payment} (h : Pays b ps c) (hb : b.Purse m) :
    c.Purse (m + totalOf ps) where
  proposer v := by
    rw [h.proposer]
    exact Nat.add_le_add (hb.proposer v) (incomeOf_le ps v)
  manual s t ht := by
    have hmanual := h.manual s
    rw [ht, Option.map_some] at hmanual
    obtain ⟨k, hk, hsum⟩ := Option.map_eq_some_iff.1 hmanual.symm
    rw [← hsum]
    exact Nat.add_le_add (hb.manual s k hk) (incomeAt_le ps s)

lemma creditProposer_fits (hc : c.Purse m) (h : m + n < Word.bound) (v : ValidatorIndex) :
    Fits (fun _ _ => True) (creditProposer v n c) := by
  obtain ⟨l, hl, -⟩ := Ledger.credit_fits hc.proposer h v
  exact .get_bind (.known_bind hl (.modify trivial))

lemma addManualReward_fits (hc : ∀ s t, c.blockTallies.get? s = some t → t.manualReward ≤ m)
    (h : m + n < Word.bound) (s : Slot) : Fits (fun _ _ => True) (addManualReward s n c) := by
  refine .get_bind (.lift_bind (.orFail fun _ => id) fun t ht => .fault_bind ?_ fun _ _ =>
    .modify trivial)
  rw [blockTally, Calc.orFail_ok] at ht
  exact Word.errs_add_of_lt (Nat.lt_of_le_of_lt (Nat.add_le_add_right (hc s t ht) n) h)

lemma blockTallies_creditProposer {v : ValidatorIndex} {u : Unit}
    (h : creditProposer v n b = .ok u c) : c.blockTallies = b.blockTallies := by
  simp only [creditProposer, Pass.bind_ok, Pass.get_ok, Pass.fault_ok, Pass.modify_ok] at h
  obtain ⟨_, _, ⟨rfl, rfl⟩, _, _, ⟨-, rfl⟩, rfl⟩ := h
  rfl

lemma payProposer_fits (hc : c.Purse m) (h : m + n < Word.bound) (block : Block) :
    Fits (fun _ d => Pays c [⟨block, n⟩] d) (payProposer block n c) := by
  have hpay : Fits (fun _ _ => True) (payProposer block n c) := by
    refine (creditProposer_fits hc h _).bind fun _ d hd _ => addManualReward_fits ?_ h _
    rw [blockTallies_creditProposer hd]
    exact hc.manual
  exact hpay.mono fun _ _ hd _ => payProposer_pays hd

/-! ### Inclusion opportunities -/

lemma scan_fits {slot : Slot} {k delay : Nat} (h : slot + delay + k ≤ Word.bound) :
    Calc.Errs (fun e => ¬ e.IsOverflow) (w.scan slot k delay) := by
  induction k generalizing delay with
  | zero => exact .ok _
  | succ k ih =>
    have hadd : slot + delay < Word.bound :=
      Nat.lt_of_lt_of_le (Nat.lt_add_of_pos_right k.succ_pos) h
    refine .bind (.fault (Word.errs_add_of_lt hadd)) fun _ _ =>
      .bind (.orFail fun _ => id) fun block _ => ?_
    split
    · exact .ok _
    · refine ih ?_
      rwa [Nat.add_assoc, Nat.add_assoc, Nat.add_comm 1 k, ← Nat.add_assoc]

/-- A scan of an epoch from a slot of any committee. -/
lemma scan_of_committee_fits (hw : w.AtScale net) {s : Snapshot} (hs : s ∈ w.snapshots)
    {c : Committee} (hc : c ∈ s.duties.committees) {limit : Nat} (hlimit : limit ≤ 2 ^ 32) :
    Calc.Errs (fun e => ¬ e.IsOverflow) (w.scan c.slot limit 1) := by
  have harith (slot k : Nat) (hslot : slot < 2 ^ 62) (hk : k ≤ 2 ^ 32) :
      slot + 1 + k ≤ Word.bound := by
    unfold Word.bound
    omega
  exact scan_fits (harith _ _ (hw.committeeSlots s hs c hc) hlimit)

lemma indexOpportunities_fits (hnet : net.Usual) (hw : w.AtScale net) (hb : b.Scaled net w) :
    Fits (fun _ c => c = { b with opportunities := c.opportunities }) (indexOpportunities b) := by
  refine .get_bind (.forM_mem rfl fun slot hslot c hc => ?_)
  rw [hb.window] at hslot
  obtain ⟨committee, hcommittee, rfl⟩ := mem_dutySlots.1 hslot
  have hnetwork : c.network = net := by rw [hc, ← hb.network]
  have hwindow : c.window = w := by rw [hc, ← hb.window]
  refine .get_bind (.lift_bind ?_ fun delay _ => .modify ?_)
  · rw [hwindow, hnetwork]
    exact scan_of_committee_fits hw (s := w.prev) (by simp [Window.snapshots]) hcommittee
      (hnet.epoch.trans (by norm_num))
  · rw [hc]

/-! ### Votes for the first epoch -/

/-- The balances behind validators that are named once. -/
lemma sum_effectiveBalanceOf_le (hw : w.AtScale net) {s : Snapshot} (hs : s ∈ w.snapshots)
    {vs : List ValidatorIndex} (hvs : vs.Nodup) : (vs.map s.effectiveBalanceOf).sum ≤ 2 ^ 56 := by
  have hrange : (List.range s.validators.length).map s.effectiveBalanceOf
      = s.validators.map (·.effectiveBalance) := by
    refine List.ext_getElem (by simp) fun i hi _ => ?_
    have hlt : i < s.validators.length := by simpa using hi
    simp [Snapshot.effectiveBalanceOf, Snapshot.validator?, hlt]
  refine Nat.le_trans (sum_map_le_of_nodup hvs fun v _ hv => ?_)
    (Nat.le_trans (Nat.le_of_eq (congrArg List.sum hrange)) (hw.stake s hs))
  rw [List.mem_range]
  by_contra hout
  have hnone : s.validator? v = none := List.getElem?_eq_none (Nat.le_of_not_lt hout)
  simp [Snapshot.effectiveBalanceOf, hnone] at hv

lemma earnedBalance_le (hw : w.AtScale net) (hb : b.window = w) (is : List Inclusion) (f : Flag) :
    b.earnedBalance is f ≤ 2 ^ 56 := by
  have hnodup : (((firsts Inclusion.validator is).filter fun i => (b.flagsOf i).has f).map
      Inclusion.validator).Nodup :=
    (nodup_keys_firsts is).sublist (List.filter_sublist.map _)
  have hsum := sum_effectiveBalanceOf_le hw (s := w.current) (by simp [Window.snapshots]) hnodup
  rw [List.map_map] at hsum
  rw [earnedBalance, hb]
  exact hsum

lemma blockRootAt_fits (hnet : net.Usual) {s : Snapshot} (hs : s.slot < 2 ^ 62) (slot : Slot) :
    Calc.Errs (fun e => ¬ e.IsOverflow) (s.blockRootAt net slot) := by
  have harith (slot last ring : Nat) (hslot : slot < last) (hlast : last < 2 ^ 62)
      (hring : ring ≤ 2 ^ 32) : slot + ring < Word.bound := by
    unfold Word.bound
    omega
  unfold Snapshot.blockRootAt
  dsimp only
  split
  · next hslot =>
    refine .bind (.fault (Word.errs_add_of_lt (harith _ _ _ hslot hs hnet.ring))) fun lost _ => ?_
    split
    · exact .orFail fun _ => id
    · rintro _ ⟨⟩
      exact id
  · rintro _ ⟨⟩
    exact id

lemma attesters_fits (d : Duties) (a : Attestation) :
    Calc.Errs (fun e => ¬ e.IsOverflow) (d.attesters a) := by
  intro e he
  cases e with
  | fault f => exact absurd he Duties.no_fault_attesters
  | error e => exact id

lemma countVote_fits (b : Bundle) (s : Slot) : Fits (fun _ _ => True) (countVote s b) :=
  .get_bind (.lift_bind (.orFail fun _ => id) fun _ _ => .modify trivial)

lemma countNewVote_fits (b : Bundle) (s : Slot) : Fits (fun _ _ => True) (countNewVote s b) :=
  .get_bind (.lift_bind (.orFail fun _ => id) fun _ _ => .modify trivial)

lemma setTally_fits (b : Bundle) (v : ValidatorIndex) (t : ValidatorTally) :
    Fits (fun _ c => c = { b with tallies := b.tallies.set v t }) (setTally v t b) := by
  have hplace : Calc.Errs (fun f => ¬ f.IsOverflow) (b.tallied v t) := by
    intro f h
    unfold tallied at h
    split at h
    · cases h
    · cases h
      rintro (h | h)
      · cases h
      · cases h
  refine .get_bind (.fault_bind hplace fun tallies htallies => .modify ?_)
  rw [(tallied_ok.1 htallies).2]

lemma addAttesting_all_fits {eff : Gwei} {fs : List Flag} (hfs : fs.Nodup)
    (hroom : ∀ f, c.attestingBalance.get f + eff < Word.bound) :
    Fits (fun _ _ => True) (fs.forM (addAttesting eff) c) := by
  refine (Meets.forM (J := fun done d => ∀ f,
    d.attestingBalance.get f = c.attestingBalance.get f + done.count f * eff) (by simp)
      fun done f hf d hd => ?_).mono fun _ _ _ _ => trivial
  -- a flag that comes up has not been added before
  have hnew : done.count f = 0 := by
    have hnodup : (done ++ [f]).Nodup := hfs.sublist hf.sublist
    rw [List.count_eq_zero]
    exact fun hmem => (List.nodup_append.1 hnodup).2.2 f hmem f (by simp) rfl
  have hsum : d.attestingBalance.get f + eff < Word.bound := by
    rw [hd, hnew, Nat.zero_mul]
    exact hroom f
  have hadd : Fits (fun _ _ => True) (addAttesting eff f d) :=
    .get_bind (.fault_bind (Word.errs_add_of_lt hsum) fun _ _ => .modify trivial)
  refine hadd.mono fun _ e he _ g => ?_
  rw [addAttesting_ok he, get_set_totals, List.count_append, Nat.add_mul, ← Nat.add_assoc, ← hd g]
  by_cases hg : g = f
  · subst hg
    simp
  · simp [hg, Ne.symm hg]

/-- A vote after which the balances behind the flags are those of the votes walked. -/
lemma creditVote_fits (hw : w.AtScale net) (hb : b.Scaled net w) (hunvoted : b.Unvoted)
    (hzero : ∀ f, b.attestingBalance.get f = 0) {k : Nat} {is : List Inclusion}
    (hc : Walked b k is c) (i : Inclusion) :
    Fits (fun _ d => ∃ is, Walked b k is d)
      (creditVote i.block i.delay (b.flagsOf i) i.validator c) := by
  have hwindow : c.window = w := by rw [hc.frame, ← hb.window]
  have hbalance (f : Flag) : c.attestingBalance.get f ≤ 2 ^ 56 := by
    rw [hc.balance, hzero, Nat.zero_add]
    exact earnedBalance_le hw hb.window is f
  have hfits : Fits (fun _ _ => True) (creditVote i.block i.delay (b.flagsOf i) i.validator c) := by
    refine .get_bind (.lift_bind (.orFail fun _ => id) fun t _ =>
      .lift_bind (.orFail fun _ => id) fun validator hv => ?_)
    rw [Snapshot.registered, hwindow, Calc.orFail_ok] at hv
    have heff := hw.effectiveBalance_le (s := w.current) (by simp [Window.snapshots]) hv
    refine (countVote_fits c _).bind fun _ d hd _ => ?_
    split
    · exact .pure trivial
    · refine (countNewVote_fits d _).bind fun _ e he _ =>
        (setTally_fits e _ _).bind fun _ k _ hk => ?_
      subst hk
      have hnodup : (Flag.all.filter (b.flagsOf i).has).Nodup := by
        have hall : Flag.all.Nodup := by decide
        exact hall.filter _
      refine (addAttesting_all_fits hnodup fun f => ?_).bind fun _ _ _ _ => .pure trivial
      obtain ⟨_, -, rfl⟩ := countVote_ok hd
      obtain ⟨_, -, rfl⟩ := countNewVote_ok he
      have harith (x y : Nat) (hx : x ≤ 2 ^ 56) (hy : y ≤ 2048 * 10 ^ 9) : x + y < Word.bound := by
        unfold Word.bound
        omega
      exact harith _ _ (hbalance f) heff
  exact hfits.mono fun r d hd _ => ⟨_, (walked_vote hunvoted hc (creditVote_ok hd)).1⟩

lemma creditAttestation_fits (hnet : net.Usual) (hw : w.AtScale net) (hb : b.Scaled net w)
    (hunvoted : b.Unvoted) (hzero : ∀ f, b.attestingBalance.get f = 0)
    (hc : ∃ k is, Walked b k is c) (block : Block) (a : Attestation) :
    Fits (fun _ d => ∃ k is, Walked b k is d) (creditAttestation b.canonical block a c) := by
  obtain ⟨k, is, hc⟩ := hc
  have hnetwork : c.network = b.network := by rw [hc.frame]
  have hphase : c.phase = b.phase := by rw [hc.frame]
  have hwindow : c.window = b.window := by rw [hc.frame]
  have hslot : w.current.slot < 2 ^ 62 := hw.slots w.current (by simp [Window.snapshots])
  refine .get_bind ?_
  dsimp only
  split
  · have hhead : Calc.Errs (fun e => ¬ e.IsOverflow)
        (c.window.current.blockRootAt c.network a.data.slot) := by
      rw [hwindow, hnetwork, hb.window, hb.network]
      exact blockRootAt_fits hnet hslot _
    refine .lift_bind hhead fun head hhead => .lift_bind (attesters_fits _ _) fun members _ =>
      .modify_bind ?_
    have hflags : c.voteFlags a.data (block.slot - a.data.slot) b.canonical head
        = b.flagsOf ⟨block, a.data, 0⟩ := by
      rw [hwindow, hnetwork] at hhead
      rw [flagsOf, keptRoot_ok hhead, voteFlags_congr hnetwork hphase]
      rfl
    have hstart : Walked b (k + 1) is { c with attestationCount := c.attestationCount + 1 } := by
      refine ⟨?_, hc.tally, hc.block, hc.balance, hc.listed, hc.registered⟩
      rw [hc.frame]
      rfl
    rw [hflags]
    refine (Meets.mapM_mem (I := fun d => ∃ is, Walked b (k + 1) is d) ⟨is, hstart⟩
      fun v _ d hd => ?_).bind fun _ d _ hd => .pure ⟨k + 1, hd⟩
    obtain ⟨js, hd⟩ := hd
    exact creditVote_fits hw hb hunvoted hzero hd ⟨block, a.data, v⟩
  · exact .pure ⟨k, is, hc⟩

lemma processAttestations_fits (hnet : net.Usual) (hw : w.AtScale net) (hb : b.Scaled net w)
    (hunvoted : b.Unvoted) (hzero : ∀ f, b.attestingBalance.get f = 0) :
    Fits (fun _ _ => True) (processAttestations b) := by
  have hslot : w.current.slot < 2 ^ 62 := hw.slots w.current (by simp [Window.snapshots])
  refine .get_bind ?_
  dsimp only
  have hroot : Calc.Errs (fun e => ¬ e.IsOverflow)
      (b.window.current.blockRootOf b.network b.window.prev.epoch) := by
    rw [hb.window, hb.network]
    exact blockRootAt_fits hnet hslot _
  refine .lift_bind hroot fun root hroot => ?_
  have hcanonical : (⟨b.window.prev.currentJustified, ⟨b.window.prev.epoch, root⟩⟩ : Canonical)
      = b.canonical := by rw [canonical, keptRoot_ok hroot]
  rw [hcanonical]
  refine (Meets.mapM_mem (I := fun d => ∃ k is, Walked b k is d) ⟨0, [], walked_start b⟩
    fun block _ c hc => ?_).bind fun _ _ _ _ => .pure trivial
  exact (Meets.mapM_mem (I := fun d => ∃ k is, Walked b k is d) hc fun a _ d hd =>
    creditAttestation_fits hnet hw hb hunvoted hzero hd block a).bind fun _ _ _ hd => .pure hd

/-- The balance that has earned a flag is part of the stake. -/
lemma attesting_le (hw : w.AtScale net) (hb : b.Scaled net w) (hunvoted : b.Unvoted)
    (hzero : ∀ f, b.attestingBalance.get f = 0) {cs : List Credit}
    (h : processAttestations b = .ok cs c) (f : Flag) : c.attestingBalance.get f ≤ 2 ^ 56 := by
  obtain ⟨-, -, hwalked, -⟩ := processAttestations_ok hunvoted h
  rw [hwalked.balance, hzero, Nat.zero_add]
  exact earnedBalance_le hw hb.window _ f

/-! ### Rewards of single validators -/

lemma delayLimit_le (hnet : net.Usual) (hb : b.Scaled net w) (flag : Flag) :
    b.delayLimit flag ≤ 2 ^ 32 := by
  have hepoch : net.slotsPerEpoch.val ≤ 2 ^ 32 := hnet.epoch.trans (by norm_num)
  have hroot (n : Nat) (hn : n ≤ 2 ^ 32) : Word.sqrt n ≤ 2 ^ 32 :=
    Nat.le_trans (Nat.le_trans (Nat.le_mul_self _) (Word.sqrt_spec n).1) hn
  unfold delayLimit
  rw [hb.network]
  split
  · cases flag with
    | source => exact hroot _ hepoch
    | target => exact hepoch
    | head => exact hnet.delay
  · exact hepoch

lemma firstOpportunity_fits (hw : w.AtScale net) (hb : b.Scaled net w) {v : ValidatorIndex}
    {slot : Slot} (hslot : w.prev.duties.voteSlot? v = some slot) {limit : Nat}
    (hlimit : limit ≤ 2 ^ 32) :
    Calc.Errs (fun e => ¬ e.IsOverflow) (b.firstOpportunity slot limit) := by
  obtain ⟨c, hc, rfl⟩ := Duties.mem_of_voteSlot? hslot
  unfold firstOpportunity
  split
  · exact .bind (.ok _) fun _ _ => .ok _
  · rw [hb.window]
    exact .bind (scan_of_committee_fits hw (s := w.prev) (by simp [Window.snapshots]) hc hlimit)
      fun _ _ => .ok _

lemma isFlagPossible_fits (hnet : net.Usual) (hw : w.AtScale net) (hb : b.Scaled net w)
    (v : ValidatorIndex) (flag : Flag) :
    Calc.Errs (fun e => ¬ e.IsOverflow) (b.isFlagPossible v flag) := by
  unfold isFlagPossible isIncludable
  rw [hb.window]
  split
  · exact .ok _
  · next slot hslot =>
    exact .bind (.ok _) fun limit hlimit => by
      cases hlimit
      exact .bind (firstOpportunity_fits hw hb hslot (delayLimit_le hnet hb flag)) fun _ _ => .ok _

/-- No maximum is above `cap`, and the validators that have not been seen have none. -/
structure Rewarded (cap : Gwei) (seen : List ValidatorIndex) (b : Bundle) : Prop where
  capped : ∀ (v : ValidatorIndex) (t), b.tallies[v]? = some t → t.maxAttesterReward ≤ cap
  unseen : ∀ v t, v ∉ seen → b.tallies[v]? = some t → t.maxAttesterReward = 0

lemma rewarded_nil {cap : Gwei}
    (h : ∀ (v : ValidatorIndex) (t), b.tallies[v]? = some t → t.maxAttesterReward = 0) :
    b.Rewarded cap [] where
  capped v t ht := by
    rw [h v t ht]
    exact Nat.zero_le cap
  unseen v t _ ht := h v t ht

lemma addAttesterReward_fits {cap : Gwei} {seen : List ValidatorIndex} {v : ValidatorIndex}
    (hc : c.Rewarded cap seen) (hv : v ∉ seen) (hn : n ≤ cap) (hcap : cap < Word.bound) :
    Fits (fun _ d => d = { c with tallies := d.tallies } ∧ d.Rewarded cap (seen ++ [v]))
      (addAttesterReward v n c) := by
  have hzero {t : ValidatorTally} (ht : c.tally v = .ok t) : t.maxAttesterReward + n = n := by
    rw [hc.unseen v t hv (Calc.orFail_ok.1 ht), Nat.zero_add]
  refine .get_bind (.lift_bind (.orFail fun _ => id) fun t ht => .fault_bind ?_ fun sum hsum =>
    (setTally_fits c _ _).mono fun _ d _ hd => ?_)
  · refine Word.errs_add_of_lt ?_
    rw [hzero ht]
    exact Nat.lt_of_le_of_lt hn hcap
  · subst hd
    rw [Word.add_ok, hzero ht] at hsum
    refine ⟨rfl, fun u k hk => ?_, fun u k hu hk => ?_⟩
    · rw [List.getElem?_set] at hk
      split at hk
      · split at hk
        · cases hk
          exact hsum.2 ▸ hn
        · cases hk
      · exact hc.capped u k hk
    · rw [List.mem_append, List.mem_singleton, not_or] at hu
      rw [List.getElem?_set_ne (Ne.symm hu.2)] at hk
      exact hc.unseen u k hu.1 hk

end Bundle

end EpochRewards
