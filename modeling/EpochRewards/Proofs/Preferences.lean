import EpochRewards.Proofs.Books

/-!
Which proposer rewards a preference takes.

A record resolves the preference once, between all that was reported and all that was computed. It
does the same as a choice block by block unless some reports count and other blocks have none that
does: what was computed for those blocks is then not part of the record.
-/

namespace EpochRewards

namespace ReportPreference

/-- The report is taken in place of what was computed. -/
def prefers : ReportPreference → Option Gwei → Bool
  | _, none => false
  | strictlyPositive, some r => r != 0
  | wheneverReported, some _ => true

variable {p : ReportPreference} {reported : Option Gwei}

lemma prefers_strictlyPositive : strictlyPositive.prefers reported = (reported.getD 0 != 0) := by
  cases reported <;> rfl

lemma prefers_wheneverReported : wheneverReported.prefers reported = reported.isSome := by
  cases reported <;> rfl

lemma resolve_eq (p : ReportPreference) (reported : Option Gwei) (computed : Gwei) :
    p.resolve reported computed
      = if p.prefers reported then reported.getD 0 else computed := by
  cases reported with
  | none => cases p <;> rfl
  | some r =>
    cases p with
    | wheneverReported => rfl
    | strictlyPositive =>
      by_cases hr : r = 0
      · simp [resolve, prefers, hr]
      · simp [resolve, prefers, hr]

/-- A report that is not taken is nothing. -/
lemma getD_of_not_prefers (h : p.prefers reported = false) : reported.getD 0 = 0 := by
  cases p with
  | strictlyPositive => simpa [prefers_strictlyPositive] using h
  | wheneverReported =>
    rw [prefers_wheneverReported, Option.isSome_eq_false_iff, Option.isNone_iff_eq_none] at h
    rw [h]
    rfl

lemma getD_reportedTotal (reports : List Gwei) : (reportedTotal reports).getD 0 = reports.sum := by
  unfold reportedTotal
  split
  · next h =>
    rw [h]
    rfl
  · rfl

/-- Reports are taken together if one of them is taken alone. -/
lemma prefers_reportedTotal (p : ReportPreference) (xs : List (Option Gwei × Gwei)) :
    p.prefers (reportedTotal (xs.filterMap (·.1))) = xs.any (p.prefers ·.1) := by
  rw [Bool.eq_iff_iff, List.any_eq_true]
  cases p with
  | strictlyPositive =>
    simp only [prefers_strictlyPositive, getD_reportedTotal, bne_iff_ne, ne_eq,
      List.sum_eq_zero_iff, List.mem_filterMap, not_forall]
    constructor
    · rintro ⟨r, ⟨x, hx, hr⟩, hne⟩
      exact ⟨x, hx, by rwa [hr]⟩
    · rintro ⟨x, hx, hne⟩
      cases hr : x.1 with
      | none => exact absurd (by rw [hr]; rfl) hne
      | some r =>
        rw [hr] at hne
        exact ⟨r, ⟨x, hx, hr⟩, hne⟩
  | wheneverReported =>
    have htotal : (reportedTotal (xs.filterMap (·.1))).isSome ↔ xs.filterMap (·.1) ≠ [] := by
      unfold reportedTotal
      split
      · next h => simp [h]
      · next h => simp [h]
    simp only [prefers_wheneverReported, htotal, ne_eq, List.filterMap_eq_nil_iff, not_forall,
      ← Option.isSome_iff_ne_none, exists_prop]

/-- What was computed where no report is taken. -/
def leftOver (p : ReportPreference) (xs : List (Option Gwei × Gwei)) : Gwei :=
  ((xs.filter (! p.prefers ·.1)).map (·.2)).sum

/-- Figures that are resolved one by one are the reports and what is left over. -/
lemma sum_resolve (p : ReportPreference) (xs : List (Option Gwei × Gwei)) :
    (xs.map fun x => p.resolve x.1 x.2).sum = (xs.filterMap (·.1)).sum + p.leftOver xs := by
  induction xs with
  | nil => rfl
  | cons x xs ih =>
    have hreports : ((x :: xs).filterMap (·.1)).sum = x.1.getD 0 + (xs.filterMap (·.1)).sum := by
      cases hx : x.1 <;> simp [hx]
    rw [List.map_cons, List.sum_cons, ih, hreports, resolve_eq]
    cases hx : p.prefers x.1 with
    | true => simp [leftOver, hx, Nat.add_assoc]
    | false => simp [leftOver, hx, getD_of_not_prefers hx, Nat.add_left_comm]

/-- Resolving sums loses what is left over if any report is taken, and nothing otherwise. -/
lemma resolve_sums (p : ReportPreference) (xs : List (Option Gwei × Gwei)) :
    p.resolve (reportedTotal (xs.filterMap (·.1))) (xs.map (·.2)).sum
        + (if xs.any (p.prefers ·.1) then p.leftOver xs else 0)
      = (xs.map fun x => p.resolve x.1 x.2).sum := by
  rw [resolve_eq, prefers_reportedTotal]
  cases hany : xs.any (p.prefers ·.1) with
  | true =>
    rw [if_pos rfl, if_pos rfl, sum_resolve, getD_reportedTotal]
  | false =>
    rw [if_neg Bool.false_ne_true, if_neg Bool.false_ne_true, Nat.add_zero]
    refine congrArg List.sum (List.map_congr_left fun x hx => ?_)
    have hnot := List.any_eq_false.1 hany x hx
    rw [resolve_eq, if_neg hnot]

end ReportPreference

namespace Bundle

variable {b : Bundle} {v : ValidatorIndex} {rec : ValidatorRecord}

/-- What is reported to the proposer of a block, if anything is, and what was computed for it. -/
def figuresOn (b : Bundle) (block : Block) : Option Gwei × Gwei :=
  (block.report.map (·.proposerComponent), b.manualAt block.slot)

/-- The reward of a block by the preference of the bundle. -/
def resolvedOn (b : Bundle) (block : Block) : Gwei :=
  b.preference.resolve (b.figuresOn block).1 (b.figuresOn block).2

/-- The block has a report that the preference takes. -/
def takesReport (b : Bundle) (block : Block) : Bool := b.preference.prefers (b.figuresOn block).1

/-- What was computed for the proposals without a report that is taken, if another has one. -/
def discarded (b : Bundle) (v : ValidatorIndex) : Gwei :=
  if (proposalsOf v b.visited).any b.takesReport then
    (((proposalsOf v b.visited).filter (! b.takesReport ·)).map fun block =>
      b.manualAt block.slot).sum
  else 0

/-- How the proposer reward of a record compares with rewards that are resolved block by block. -/
structure ResolvedOnce (b : Bundle) (v : ValidatorIndex) (rec : ValidatorRecord) : Prop where
  once : rec.proposerReward
    = b.preference.resolve (reportedTotal (reportsOn v b.visited)) (b.manualOn v b.visited)
  discards : rec.proposerReward + b.discarded v
    = ((proposalsOf v b.visited).map b.resolvedOn).sum
  /-- nothing is discarded where no report is taken or nothing was computed without one -/
  agrees_iff : rec.proposerReward = ((proposalsOf v b.visited).map b.resolvedOn).sum ↔
    (∀ block ∈ proposalsOf v b.visited, b.takesReport block = false) ∨
      ∀ block ∈ proposalsOf v b.visited, b.takesReport block = false →
        b.manualAt block.slot = 0

lemma discarded_eq_zero_iff : b.discarded v = 0 ↔
    (∀ block ∈ proposalsOf v b.visited, b.takesReport block = false) ∨
      ∀ block ∈ proposalsOf v b.visited, b.takesReport block = false →
        b.manualAt block.slot = 0 := by
  rw [discarded]
  cases hany : (proposalsOf v b.visited).any b.takesReport with
  | true =>
    obtain ⟨block, hblock, htakes⟩ := List.any_eq_true.1 hany
    have hsome : ¬ ∀ block ∈ proposalsOf v b.visited, b.takesReport block = false :=
      fun hnone => Bool.false_ne_true ((hnone block hblock).symm.trans htakes)
    rw [if_pos rfl, List.sum_eq_zero_iff, or_iff_right hsome]
    simp only [List.mem_map, List.mem_filter, Bool.not_eq_true']
    constructor
    · intro h block hblock hnot
      exact h _ ⟨block, ⟨hblock, hnot⟩, rfl⟩
    · rintro h _ ⟨block, ⟨hblock, hnot⟩, rfl⟩
      exact h block hblock hnot
  | false =>
    rw [if_neg Bool.false_ne_true]
    refine iff_of_true rfl (.inl fun block hblock => ?_)
    exact Bool.eq_false_iff.2 (List.any_eq_false.1 hany block hblock)

/-- **A preference is resolved once in a record.** The proposer reward is what the preference makes
of all reports and of all that was computed. It falls short of the rewards that are resolved block
by block by what was computed for blocks without a report that is taken, if another block of the
validator has one. -/
theorem proposerReward_resolvedOnce (h : b.resolve v = .ok rec) : ResolvedOnce b v rec := by
  have hfigures := resolve_figures h
  have honce : rec.proposerReward
      = b.preference.resolve (reportedTotal (reportsOn v b.visited)) (b.manualOn v b.visited) := by
    rw [hfigures.proposer, proposerRewards_reported hfigures.proposals]
    exact congrArg _ ((computed_addProposerRewards hfigures.proposals).trans (Nat.zero_add _))
  have hdiscards : rec.proposerReward + b.discarded v
      = ((proposalsOf v b.visited).map b.resolvedOn).sum := by
    have hsums := b.preference.resolve_sums ((proposalsOf v b.visited).map b.figuresOn)
    rw [List.filterMap_map, List.map_map, List.map_map, List.any_map, ReportPreference.leftOver,
      List.filter_map, List.map_map] at hsums
    rw [honce]
    exact hsums
  refine ⟨honce, hdiscards, ?_⟩
  rw [← hdiscards, ← discarded_eq_zero_iff]
  exact Nat.left_eq_add

end Bundle

namespace Window

open EpochRewards.Bundle

/-- A validator that is paid for two blocks of the first epoch and has a report on the second. -/
def halfReportedWindow : Window :=
  let block (slot : Slot) (bits : List Bool) (report : Option RewardReport) : Block :=
    ⟨slot, 0, true, [⟨.ofBits bits, ⟨4, 0, .zero, ⟨0, .zero⟩, ⟨1, .zero⟩⟩⟩], none, [], [], [],
      report⟩
  let validator : Validator := ⟨.zero, 32, false, 0, 0, farFuture, farFuture⟩
  let snapshot (epoch : Epoch) (blocks : List Block) : Snapshot :=
    { Snapshot.placeholder epoch (4 * epoch + 3) with
      stateRoot := .ofNat 32 1
      validators := [validator, validator]
      balances := [32, 32]
      blockRoots := List.replicate 16 .zero
      blocks
      duties := ⟨[⟨4 * epoch, 0, [0, 1]⟩], []⟩ }
  ⟨snapshot 1 [block 5 [true, false] none, block 6 [false, true] (some ⟨5, 5, 0, 0, 0⟩)],
    snapshot 2 [], snapshot 3 []⟩

lemma halfReportedWindow_rewards :
    reading .fourSlots .wheneverReported halfReportedWindow 0
      (fun b rec => (rec.proposerReward, b.discarded 0,
        ((proposalsOf 0 b.visited).map b.resolvedOn).sum)) = some (5, 8, 13) := by
  cbv

/-- The 8 that were computed for the first block are discarded for the report of 5 on the second. -/
theorem halfReportedWindow_resolvedOnce :
    ∃ b rec, build .fourSlots .wheneverReported halfReportedWindow = .ok b ∧
      b.resolve 0 = .ok rec ∧ rec.proposerReward = 5 ∧ b.discarded 0 = 8 ∧
        ResolvedOnce b 0 rec := by
  obtain ⟨b, rec, hb, hrec, hrewards⟩ := exists_of_reading halfReportedWindow_rewards
  rw [Prod.mk.injEq, Prod.mk.injEq] at hrewards
  exact ⟨b, rec, hb, hrec, hrewards.1, hrewards.2.1, proposerReward_resolvedOnce hrec⟩

/-- A missing report is not made up for by what was computed for its block. -/
theorem not_resolved_by_block :
    ¬ ∀ (net : Network) (preference : ReportPreference) (w : Window) (b : Bundle)
      (v : ValidatorIndex) (rec : ValidatorRecord), net.validate = .ok () →
      build net preference w = .ok b → b.resolve v = .ok rec →
        rec.proposerReward = ((proposalsOf v b.visited).map b.resolvedOn).sum := by
  intro hall
  obtain ⟨b, rec, hb, hrec, hrewards⟩ := exists_of_reading halfReportedWindow_rewards
  rw [Prod.mk.injEq, Prod.mk.injEq] at hrewards
  have heq := hall _ _ _ b 0 rec rfl hb hrec
  rw [hrewards.1, hrewards.2.2] at heq
  cases heq

end Window

end EpochRewards
