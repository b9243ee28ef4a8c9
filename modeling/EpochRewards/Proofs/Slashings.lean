import EpochRewards.Proofs.Headroom

/-!
Rewards for slashing reports.

A share rule says only which part of a reward is booked first. Both parts go to the proposer, so a
report pays what it is worth under every rule, and a rule matters only where a number is no word.
-/

namespace EpochRewards

/-! ### Splits -/

/-- The rule gives the proposer at most the whole of a reward, of exactly those that fit. -/
structure ShareRule.Divides (share : ShareRule) (fits : Gwei → Prop) : Prop where
  le : ∀ {r p}, share r = .ok p → p ≤ r
  ok_iff : ∀ r, (∃ p, share r = .ok p) ↔ fits r
  errs : ∀ r, Calc.Errs Fault.IsOverflow (share r)

lemma Phase0.proposerShare_divides (net : Network) :
    (Phase0.proposerShare net).Divides fun _ => True where
  le h := by
    cases h
    exact Nat.div_le_self _ _
  ok_iff r := iff_of_true ⟨_, rfl⟩ trivial
  errs r := .ok _

lemma Altair.proposerShare_divides :
    Altair.proposerShare.Divides fun r => r * proposerWeight < Word.bound where
  le {r p} h := by
    simp only [proposerShare, Calc.bind_ok, Word.mul_ok, Calc.pure_ok] at h
    obtain ⟨_, ⟨-, rfl⟩, rfl⟩ := h
    calc r * proposerWeight / weightDenominator
        ≤ r * weightDenominator / weightDenominator :=
          Nat.div_le_div_right (Nat.mul_le_mul_left r (by decide))
      _ = r := Nat.mul_div_cancel r (by decide)
  ok_iff r := by
    simp only [proposerShare, Calc.bind_ok, Word.mul_ok, Calc.pure_ok]
    exact ⟨fun ⟨_, _, ⟨hfits, _⟩, _⟩ => hfits, fun hfits => ⟨_, _, ⟨hfits, rfl⟩, rfl⟩⟩
  errs r := Word.errs_mul.bind fun _ _ => .ok _

/-- Splitting neither creates nor loses a unit. -/
lemma SlashingReward.split_whole {share : ShareRule} {fits : Gwei → Prop}
    (hshare : share.Divides fits) {r : Gwei} {s : SlashingReward} (h : split r share = .ok s) :
    s.proposer + s.whistleblower = r := by
  simp only [split, Calc.bind_ok, Calc.pure_ok] at h
  obtain ⟨p, hp, rfl⟩ := h
  exact Nat.add_sub_cancel' (hshare.le hp)

/-! ### Reports -/

/-- The block has a report about the validator. -/
def Block.Reports (block : Block) (v : ValidatorIndex) : Prop :=
  (∃ s ∈ block.attesterSlashings, v ∈ s.first.indices ∧ v ∈ s.second.indices) ∨
    ∃ s ∈ block.proposerSlashings, s.first.proposer = v

/-- What the reports of a block are worth, where one about a validator is worth `reward` of it. -/
def Block.slashingWorth (reward : ValidatorIndex → Gwei) (block : Block) : Gwei :=
  (block.attesterSlashings.map fun s =>
    ((s.first.indices.filter (· ∈ s.second.indices)).map reward).sum).sum
    + (block.proposerSlashings.map fun s => reward s.first.proposer).sum

lemma Block.mem_slashedIndices {block : Block} {v : ValidatorIndex} :
    v ∈ block.slashedIndices ↔ block.Reports v := by
  simp [slashedIndices, AttesterSlashing.offenders, AttesterSlashing.common, Reports]

lemma Block.sum_slashedIndices (reward : ValidatorIndex → Gwei) (block : Block) :
    (block.slashedIndices.map reward).sum = block.slashingWorth reward := by
  have hcommon (xs ys : List ValidatorIndex) :
      AttesterSlashing.common xs ys = xs.filter (· ∈ ys) :=
    List.filter_congr fun v _ => List.contains_eq_mem v ys
  rw [slashedIndices, List.map_append, List.sum_append, List.map_map, List.map_flatMap,
    List.flatMap_def, List.sum_flatten, List.map_map, slashingWorth]
  simp only [AttesterSlashing.offenders, hcommon, Function.comp_def]

structure SlashingReport where
  block : Block
  slashed : ValidatorIndex

namespace Window

/-- The reports in the last snapshot's proposed blocks, with repetitions. -/
def slashingReports (w : Window) : List SlashingReport :=
  w.next.proposedBlocks.flatMap fun block => block.slashedIndices.map (⟨block, ·⟩)

/-- What a report about the validator is worth. -/
def slashingReward (net : Network) (w : Window) (v : ValidatorIndex) : Gwei :=
  w.next.effectiveBalanceOf v / net.whistleblowerQuotient.val

/-- What all reports in the blocks of a proposer are worth. -/
def slashingIncome (net : Network) (w : Window) (p : ValidatorIndex) : Gwei :=
  ((w.next.proposedBlocks.filter (·.proposer = p)).map
    (Block.slashingWorth (w.slashingReward net))).sum

/-- Every validator with a report in a proposed block of the last snapshot is registered there. -/
def ReportsRegistered (w : Window) : Prop :=
  ∀ block ∈ w.next.proposedBlocks, ∀ v, block.Reports v → (w.next.validator? v).isSome

/-- The reward of each report fits, and what a proposer has from all of them is a word. -/
structure SlashingsFit (net : Network) (w : Window) (fits : Gwei → Prop) : Prop where
  each : ∀ block ∈ w.next.proposedBlocks, ∀ v, block.Reports v → fits (w.slashingReward net v)
  all : ∀ p, w.slashingIncome net p < Word.bound

end Window

def SlashingReport.payment (net : Network) (w : Window) (x : SlashingReport) : Payment :=
  ⟨x.block, w.slashingReward net x.slashed⟩

namespace Window

open Payment

variable {net : Network} {w : Window}

lemma mem_slashingReports {x : SlashingReport} :
    x ∈ w.slashingReports ↔ x.block ∈ w.next.proposedBlocks ∧ x.block.Reports x.slashed := by
  simp only [slashingReports, List.mem_flatMap, List.mem_map, ← Block.mem_slashedIndices]
  constructor
  · rintro ⟨block, hblock, v, hv, rfl⟩
    exact ⟨hblock, hv⟩
  · rintro ⟨hblock, hv⟩
    exact ⟨x.block, hblock, x.slashed, hv, rfl⟩

lemma incomeOf_slashingReports (p : ValidatorIndex) :
    incomeOf (w.slashingReports.map (·.payment net w)) p = w.slashingIncome net p := by
  rw [slashingReports, slashingIncome]
  induction w.next.proposedBlocks with
  | nil => rfl
  | cons block blocks ih =>
    have hblock : incomeOf ((block.slashedIndices.map (⟨block, ·⟩)).map
          (SlashingReport.payment net w)) p
        = if block.proposer = p then block.slashingWorth (w.slashingReward net) else 0 := by
      rw [← Block.sum_slashedIndices, List.map_map, incomeOf, List.filter_map]
      by_cases hp : block.proposer = p
      · simp [hp, SlashingReport.payment, Function.comp_def]
      · simp [hp, SlashingReport.payment, Function.comp_def]
    rw [List.flatMap_cons, List.map_append, incomeOf_append, hblock, ih, List.filter_cons]
    by_cases hp : block.proposer = p
    · simp [hp]
    · simp [hp]

end Window

/-! ### The pass -/

namespace Bundle

open Pass Payment

variable {net : Network} {w : Window} {b c d : Bundle} {share : ShareRule} {fits : Gwei → Prop}

lemma creditSlashing_meets {E : Failure RewardError → Bundle → Prop} {Q : Unit → Bundle → Prop}
    {p : ValidatorIndex} {n : Gwei}
    (hover : Word.bound ≤ b.maxSlashingRewards.amount p + n → ∀ f, f.IsOverflow → E (.fault f) b)
    (hfits : b.maxSlashingRewards.amount p + n < Word.bound → Q () { b with
      maxSlashingRewards :=
        b.maxSlashingRewards.insert p (b.maxSlashingRewards.amount p + n) }) :
    Meets E Q (creditSlashing p n b) := by
  refine .get_bind ?_
  by_cases hroom : b.maxSlashingRewards.amount p + n < Word.bound
  · have hcredit : b.maxSlashingRewards.credit p n
        = .ok (b.maxSlashingRewards.insert p (b.maxSlashingRewards.amount p + n)) := by
      rw [Ledger.credit, Word.add_eq hroom]
      rfl
    exact .known_bind hcredit (.modify (hfits hroom))
  · refine .fault_bind ((Ledger.errs_credit _ _ _).mono (hover (Nat.le_of_not_lt hroom)))
      fun ledger hledger => ?_
    rw [Ledger.credit, Calc.bind_ok] at hledger
    obtain ⟨_, hsum, -⟩ := hledger
    exact absurd (Word.add_ok.1 hsum).1 hroom

/-- The bundle `b` with `n` more in slashing rewards for `p`. -/
structure Whistled (b : Bundle) (p : ValidatorIndex) (n : Gwei) (c : Bundle) : Prop where
  frame : c = { b with maxSlashingRewards := c.maxSlashingRewards }
  amount : ∀ q, c.maxSlashingRewards.amount q
    = b.maxSlashingRewards.amount q + if p = q then n else 0
  listed : ∀ q, c.maxSlashingRewards.contains q = true ↔
    p = q ∨ b.maxSlashingRewards.contains q = true
  word : b.maxSlashingRewards.amount p + n < Word.bound

/-- Two parts of a reward, booked one after the other, are the reward. -/
lemma creditParts_meets {E : Failure RewardError → Bundle → Prop} {p : ValidatorIndex} {n : Gwei}
    {s : SlashingReward} (hwhole : s.proposer + s.whistleblower = n)
    (hover : Word.bound ≤ b.maxSlashingRewards.amount p + n →
      ∀ f c, f.IsOverflow → E (.fault f) c) :
    Meets E (fun _ c => Whistled b p n c)
      ((do creditSlashing p s.proposer; creditSlashing p s.whistleblower) b) := by
  have hle : b.maxSlashingRewards.amount p + s.proposer ≤ b.maxSlashingRewards.amount p + n :=
    Nat.add_le_add_left (hwhole ▸ Nat.le_add_right _ _) _
  refine (creditSlashing_meets (Q := fun _ c => c = { b with
    maxSlashingRewards := b.maxSlashingRewards.insert p
      (b.maxSlashingRewards.amount p + s.proposer) })
    (fun h f hf => hover (Nat.le_trans h hle) f b hf) fun _ => rfl).bind fun _ c _ hc => ?_
  have hsum : c.maxSlashingRewards.amount p + s.whistleblower
      = b.maxSlashingRewards.amount p + n := by
    rw [hc, Ledger.amount_insert, if_pos rfl, Nat.add_assoc, hwhole]
  refine creditSlashing_meets (fun h f hf => hover (hsum ▸ h) f c hf) fun hroom =>
    ⟨by rw [hc], fun q => ?_, fun q => ?_, hsum ▸ hroom⟩
  · rw [Ledger.amount_insert, hsum, hc, Ledger.amount_insert]
    by_cases hq : q = p
    · simp [hq]
    · simp [hq, Ne.symm hq]
  · rw [Ledger.contains_insert, hc, Ledger.contains_insert]
    by_cases hq : q = p
    · simp [hq]
    · simp [hq, Ne.symm hq]

/-- The bundle `b` with the rewards for these reports. -/
structure Slashed (net : Network) (w : Window) (fits : Gwei → Prop) (b : Bundle)
    (xs : List SlashingReport) (c : Bundle) : Prop where
  frame : c = { b with maxSlashingRewards := c.maxSlashingRewards }
  registered : ∀ x ∈ xs, (w.next.validator? x.slashed).isSome
  fit : ∀ x ∈ xs, fits (w.slashingReward net x.slashed)
  amount : ∀ p, c.maxSlashingRewards.amount p = incomeOf (xs.map (·.payment net w)) p
  listed : ∀ p, c.maxSlashingRewards.contains p = true ↔ ∃ x ∈ xs, x.block.proposer = p
  word : ∀ p, incomeOf (xs.map (·.payment net w)) p < Word.bound

variable {xs done : List SlashingReport} {x : SlashingReport}

lemma slashed_start (hempty : b.maxSlashingRewards = .empty) : Slashed net w fits b [] b where
  frame := rfl
  registered _ hx := nomatch hx
  fit _ hx := nomatch hx
  amount p := by
    rw [hempty]
    rfl
  listed p := by simp [hempty, Ledger.contains]
  word p := Nat.zero_lt_succ _

lemma Slashed.add (hc : Slashed net w fits b xs c)
    (hregistered : (w.next.validator? x.slashed).isSome)
    (hfits : fits (w.slashingReward net x.slashed))
    (hd : Whistled c x.block.proposer (w.slashingReward net x.slashed) d) :
    Slashed net w fits b (xs ++ [x]) d := by
  have hincome (p : ValidatorIndex) : incomeOf ((xs ++ [x]).map (·.payment net w)) p
      = incomeOf (xs.map (·.payment net w)) p
        + if x.block.proposer = p then w.slashingReward net x.slashed else 0 := by
    rw [List.map_append, incomeOf_append, List.map_singleton, incomeOf_singleton]
    rfl
  refine ⟨by rw [hd.frame, hc.frame], List.forall_mem_append.2 ⟨hc.registered, by simpa⟩,
    List.forall_mem_append.2 ⟨hc.fit, by simpa⟩, fun p => ?_, fun p => ?_, fun p => ?_⟩
  · rw [hd.amount, hc.amount, hincome]
  · rw [hd.listed, hc.listed]
    simp [or_and_right, exists_or, or_comm]
  · rw [hincome]
    split
    · next hp =>
      rw [← hp, ← hc.amount]
      exact hd.word
    · exact hc.word p

/-- The reports alone decide what the bundle becomes. -/
lemma Slashed.eq {fits' : Gwei → Prop} (hc : Slashed net w fits b xs c)
    (hd : Slashed net w fits' b xs d) : c = d := by
  have hledger : c.maxSlashingRewards = d.maxSlashingRewards :=
    Ledger.ext_amount (fun p => Bool.eq_iff_iff.2 ((hc.listed p).trans (hd.listed p).symm))
      fun p => (hc.amount p).trans (hd.amount p).symm
  rw [hc.frame, hd.frame, hledger]

/-- A report about an unknown validator, or a number that is no word. -/
def SlashingFault (net : Network) (w : Window) (fits : Gwei → Prop) :
    Failure RewardError → Prop
  | .error e => ∃ x ∈ w.slashingReports, w.next.validator? x.slashed = none ∧
      e = .validatorNotFound x.slashed
  | .fault f => f.IsOverflow ∧ ¬ w.SlashingsFit net fits

/-- Reports that come first are not worth more than all. -/
lemma incomeOf_initial_le (net : Network) (h : done ++ [x] <+: w.slashingReports) :
    incomeOf (done.map (·.payment net w)) x.block.proposer + w.slashingReward net x.slashed
      ≤ w.slashingIncome net x.block.proposer := by
  obtain ⟨rest, hrest⟩ := h
  have hlast : incomeOf [x.payment net w] x.block.proposer = w.slashingReward net x.slashed := by
    rw [incomeOf_singleton]
    exact if_pos rfl
  rw [← Window.incomeOf_slashingReports, ← hrest, List.map_append, incomeOf_append,
    List.map_append, incomeOf_append, List.map_singleton, hlast]
  exact Nat.le_add_right _ _

lemma rewardSlashing_meets (hshare : share.Divides fits) (hnet : b.network = net)
    (hw : b.window = w) (hx : done ++ [x] <+: w.slashingReports)
    (hc : Slashed net w fits b done c) :
    Meets (fun e _ => SlashingFault net w fits e)
      (fun _ d => Slashed net w fits b (done ++ [x]) d)
      (rewardSlashing share x.block x.slashed c) := by
  have hmem : x ∈ w.slashingReports := hx.subset (by simp)
  have hreport := Window.mem_slashingReports.1 hmem
  have hnetwork : c.network = net := by rw [hc.frame, ← hnet]
  have hwindow : c.window = w := by rw [hc.frame, ← hw]
  refine .get_bind (.lift_bind ?_ fun validator hv => ?_)
  · rw [hwindow]
    exact Snapshot.errs_registered fun hnone => ⟨x, hmem, hnone, rfl⟩
  rw [Snapshot.registered, hwindow, Calc.orFail_ok] at hv
  have hreward : validator.effectiveBalance / c.network.whistleblowerQuotient.val
      = w.slashingReward net x.slashed := by
    rw [Window.slashingReward, Snapshot.effectiveBalanceOf, hv, hnetwork]
    rfl
  rw [hreward]
  refine .fault_bind (.bind (fun f hf => ?_) fun _ _ => .ok _) fun split hsplit => ?_
  · -- the rule has no share of a reward that does not fit
    refine ⟨hshare.errs _ f hf, fun hfit => ?_⟩
    obtain ⟨p, hp⟩ := (hshare.ok_iff _).2 (hfit.each x.block hreport.1 x.slashed hreport.2)
    rw [hp] at hf
    cases hf
  · have hfits : fits (w.slashingReward net x.slashed) := by
      obtain ⟨p, hp, -⟩ := Calc.bind_ok.1 hsplit
      exact (hshare.ok_iff _).1 ⟨p, hp⟩
    refine (creditParts_meets (SlashingReward.split_whole hshare hsplit) fun hover f _ hf =>
      ⟨hf, fun hfit => ?_⟩).mono fun _ d _ hd => hc.add (Option.isSome_of_eq_some hv) hfits hd
    rw [hc.amount] at hover
    exact Nat.not_lt.2 (Nat.le_trans hover (incomeOf_initial_le net hx)) (hfit.all _)

/-- One report after the other, whatever block it is in. -/
lemma processSlashings_eq (hw : b.window = w) :
    processSlashings share b
      = (w.slashingReports.forM fun x => rewardSlashing share x.block x.slashed) b := by
  have hflat (blocks : List Block) :
      (blocks.flatMap fun block => block.slashedIndices.map (SlashingReport.mk block)).forM
          (fun x => rewardSlashing share x.block x.slashed)
        = blocks.forM fun block => block.slashedIndices.forM (rewardSlashing share block) := by
    simp only [List.forM_eq_forM]
    induction blocks with
    | nil => rfl
    | cons block blocks ih =>
      rw [List.flatMap_cons, List.forM_append, List.forM_map, ih, List.forM_cons]
  rw [Window.slashingReports, hflat, ← hw]
  rfl

lemma processSlashings_meets (hshare : share.Divides fits) (hnet : b.network = net)
    (hw : b.window = w) (hempty : b.maxSlashingRewards = .empty) :
    Meets (fun e _ => SlashingFault net w fits e)
      (fun _ c => Slashed net w fits b w.slashingReports c) (processSlashings share b) := by
  rw [processSlashings_eq hw]
  exact .forM (J := fun done c => Slashed net w fits b done c) (slashed_start hempty)
    fun done x hx c hc => rewardSlashing_meets hshare hnet hw hx hc

end Bundle

open EpochRewards.Bundle Pass

/-- What the reports of `w` come to under a share rule, from a bundle without slashing rewards. -/
structure SlashingsConserved (net : Network) (w : Window) (share : ShareRule)
    (fits : Gwei → Prop) (b : Bundle) : Prop where
  whole : ∀ r s, SlashingReward.split r share = .ok s → s.proposer + s.whistleblower = r
  succeeds : (∃ c, processSlashings share b = .ok () c) ↔
    w.ReportsRegistered ∧ w.SlashingsFit net fits
  amount : ∀ c, processSlashings share b = .ok () c →
    ∀ p, c.maxSlashingRewards.amount p = w.slashingIncome net p
  listed : ∀ c, processSlashings share b = .ok () c → ∀ p,
    c.maxSlashingRewards.contains p = true ↔
      ∃ block ∈ w.next.proposedBlocks, block.proposer = p ∧ ∃ v, block.Reports v
  frame : ∀ c, processSlashings share b = .ok () c →
    c = { b with maxSlashingRewards := c.maxSlashingRewards }
  /-- an error names a validator that is reported and not registered -/
  unknown : ∀ e c, processSlashings share b = .error (.error e) c →
    ∃ block ∈ w.next.proposedBlocks, ∃ v, block.Reports v ∧ w.next.validator? v = none ∧
      e = .validatorNotFound v
  overflow : ∀ f c, processSlashings share b = .error (.fault f) c →
    f.IsOverflow ∧ ¬ w.SlashingsFit net fits

namespace Window

variable {net : Network} {w : Window} {b : Bundle} {share : ShareRule} {fits : Gwei → Prop}

lemma slashingsConserved_of_divides (hshare : share.Divides fits) (hnet : b.network = net)
    (hw : b.window = w) (hempty : b.maxSlashingRewards = .empty) :
    SlashingsConserved net w share fits b := by
  have hmeets := processSlashings_meets hshare hnet hw hempty
  have hok {c : Bundle} (hc : processSlashings share b = .ok () c) :
      Slashed net w fits b w.slashingReports c := by
    rw [hc] at hmeets
    exact hmeets
  have hfails {e : Failure RewardError} {c : Bundle}
      (hc : processSlashings share b = .error e c) : SlashingFault net w fits e := by
    rw [hc] at hmeets
    exact hmeets
  have hreports {block : Block} (hblock : block ∈ w.next.proposedBlocks) {v : ValidatorIndex}
      (hv : block.Reports v) : ⟨block, v⟩ ∈ w.slashingReports := mem_slashingReports.2 ⟨hblock, hv⟩
  refine ⟨fun r s => SlashingReward.split_whole hshare,
    ⟨fun ⟨c, hc⟩ => ?_, fun ⟨hknown, hfit⟩ => ?_⟩, fun c hc p => ?_, fun c hc p => ?_,
    fun c hc => (hok hc).frame, fun e c hc => ?_, fun f c hc => hfails hc⟩
  · have hslashed := hok hc
    refine ⟨fun block hblock v hv => hslashed.registered _ (hreports hblock hv),
      fun block hblock v hv => hslashed.fit _ (hreports hblock hv), fun p => ?_⟩
    rw [← incomeOf_slashingReports]
    exact hslashed.word p
  · cases hrun : processSlashings share b with
    | ok u c => exact ⟨c, rfl⟩
    | error e c =>
      cases e with
      | fault f => exact absurd hfit (hfails hrun).2
      | error e =>
        obtain ⟨x, hx, hnone, -⟩ := hfails hrun
        have hreport := mem_slashingReports.1 hx
        have hsome := hknown x.block hreport.1 x.slashed hreport.2
        rw [hnone] at hsome
        cases hsome
  · rw [(hok hc).amount, incomeOf_slashingReports]
  · rw [(hok hc).listed]
    constructor
    · rintro ⟨x, hx, hp⟩
      have hreport := mem_slashingReports.1 hx
      exact ⟨x.block, hreport.1, hp, x.slashed, hreport.2⟩
    · rintro ⟨block, hblock, hp, v, hv⟩
      exact ⟨_, hreports hblock hv, hp⟩
  · obtain ⟨x, hx, hnone, rfl⟩ := hfails hc
    have hreport := mem_slashingReports.1 hx
    exact ⟨x.block, hreport.1, x.slashed, hreport.2, hnone, rfl⟩

/-- **Splitting a whistleblower's reward neither creates nor loses anything.** By the rule of either
fork the proposers of the last snapshot's blocks have what their reports are worth, unless a
reported validator is unknown or a number is no word. -/
theorem slashing_rewards_conserved {phase : Phase} {preference : ReportPreference}
    (hb : fresh net phase preference w = .ok b) :
    SlashingsConserved net w (Phase0.proposerShare net) (fun _ => True) b ∧
      SlashingsConserved net w Altair.proposerShare (fun r => r * proposerWeight < Word.bound) b ∧
      ∀ c d, processSlashings (Phase0.proposerShare net) b = .ok () c →
        processSlashings Altair.proposerShare b = .ok () d → c = d := by
  obtain ⟨hnet, -, hw, -⟩ := fresh_ok hb
  obtain ⟨-, hempty, -⟩ := fresh_ledgers hb
  refine ⟨slashingsConserved_of_divides (Phase0.proposerShare_divides net) hnet hw hempty,
    slashingsConserved_of_divides Altair.proposerShare_divides hnet hw hempty, fun c d hc hd => ?_⟩
  have hphase0 := processSlashings_meets (Phase0.proposerShare_divides net) hnet hw hempty
  have haltair := processSlashings_meets Altair.proposerShare_divides hnet hw hempty
  rw [hc] at hphase0
  rw [hd] at haltair
  exact Slashed.eq hphase0 haltair

/-- Reports in two blocks of one proposer and in one of another; the block of slot 14 was missed. -/
def reportingWindow : Window :=
  let validator (key balance : Nat) : Validator :=
    ⟨.ofNat 48 key, balance, false, 0, 0, farFuture, farFuture⟩
  let data : VoteData := ⟨8, 0, .ofNat 32 1, ⟨0, .ofNat 32 1⟩, ⟨2, .ofNat 32 1⟩⟩
  let block (slot : Slot) (proposer : ValidatorIndex) (both : List ValidatorIndex)
      (headers : List ValidatorIndex) : Block :=
    { Block.missed slot proposer with
      proposed := slot != 14
      attesterSlashings := [⟨⟨0 :: both, data⟩, ⟨both.reverse, data⟩⟩]
      proposerSlashings := headers.map fun v => ⟨⟨slot, v⟩, ⟨slot, v⟩⟩ }
  let snapshot (epoch : Epoch) (blocks : List Block) : Snapshot :=
    { Snapshot.placeholder epoch (4 * epoch + 3) with
      validators := [validator 0 5119, validator 1 10239, validator 2 40000]
      blocks }
  ⟨snapshot 1 [], snapshot 2 [],
    snapshot 3 [block 12 2 [1, 2, 1] [0], block 13 1 [2] [], block 14 1 [2] [2], block 15 2 [] [1]]⟩

lemma reportingWindow_rewards :
    (after (fresh Network.fourSlots .altair .strictlyPositive reportingWindow)
      (processSlashings Altair.proposerShare)).map (·.maxSlashingRewards.entries)
        = some [(1, 78), (2, 144)] := by
  decide +kernel

/-- The two reports about validator 1 in one attester slashing both count, and so does the one in a
later block of the same proposer: 19 + 78 + 19 + 9 + 19. -/
theorem reportingWindow_rewards_conserved :
    ∃ b c, fresh Network.fourSlots .altair .strictlyPositive reportingWindow = .ok b ∧
      processSlashings Altair.proposerShare b = .ok () c ∧
      c.maxSlashingRewards.entries = [(1, 78), (2, 144)] ∧
      SlashingsConserved Network.fourSlots reportingWindow (Phase0.proposerShare Network.fourSlots)
        (fun _ => True) b ∧
      SlashingsConserved Network.fourSlots reportingWindow Altair.proposerShare
        (fun r => r * proposerWeight < Word.bound) b := by
  obtain ⟨b, _, c, hb, hc, hrewards⟩ := exists_of_after reportingWindow_rewards
  obtain ⟨hphase0, haltair, -⟩ := slashing_rewards_conserved hb
  exact ⟨b, c, hb, hc, hrewards, hphase0, haltair⟩

end Window

end EpochRewards
