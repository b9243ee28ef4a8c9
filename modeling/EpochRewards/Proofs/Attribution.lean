import EpochRewards.Proofs.Coverage
import EpochRewards.Proofs.Figures
import EpochRewards.Proofs.Forks

/-!
In which windows the report on a block rewards its proposer.

Since Altair a record adds up the reports on the blocks of its own epoch, before on those of the
two epochs before it. Windows overlap, so before Altair every report is part of two records of
its proposer. The reports of the last epoch before Altair are part of one record, those of the
first epoch of Altair of none, and those of later epochs of one.
-/

namespace EpochRewards

/-! ### Reports and records -/

/-- The rewards reported on the proposals of a validator, block by block. -/
def reportsOn (v : ValidatorIndex) (blocks : List Block) : List Gwei :=
  (blocks.filter fun block => block.proposed && block.proposer == v).filterMap fun block =>
    block.report.map (·.proposerComponent)

/-- What was reported in all, if anything was. -/
def reportedTotal (reports : List Gwei) : Option Gwei :=
  if reports = [] then none else some reports.sum

/-- The snapshots of a window on whose blocks the reports count. -/
def Window.reported (net : Network) (w : Window) : List Snapshot :=
  if net.altairEpoch ≤ w.current.epoch then [w.next] else [w.prev, w.current]

namespace Bundle

variable {net : Network} {preference : ReportPreference} {w : Window} {b : Bundle}
  {v : ValidatorIndex} {rec : ValidatorRecord}

lemma addProposerReward_ok {block : Block} {acc acc' : Option Gwei × Gwei}
    (h : b.addProposerReward acc block = .ok acc') :
    acc'.1 = match block.report with
      | none => acc.1
      | some r => some (acc.1.getD 0 + r.proposerComponent) := by
  unfold addProposerReward at h
  dsimp only at h
  cases hr : block.report with
  | none =>
    simp only [hr, Calc.bind_ok, Calc.pure_ok] at h
    obtain ⟨reported, rfl, h⟩ := h
    split at h <;> simp only [Calc.bind_ok, Calc.pure_ok] at h
    · obtain ⟨_, -, rfl⟩ := h
      rfl
    · obtain ⟨_, -, rfl⟩ := h
      rfl
  | some r =>
    simp only [hr, Calc.bind_ok] at h
    obtain ⟨reported, hreported, h⟩ := h
    obtain ⟨total, htotal, rfl⟩ := Calc.map_ok.1 hreported
    have hsum : some total = some (acc.1.getD 0 + r.proposerComponent) := by
      rw [(Word.add_ok.1 htotal).2]
    split at h <;> simp only [Calc.bind_ok, Calc.pure_ok] at h
    · obtain ⟨_, -, rfl⟩ := h
      exact hsum
    · obtain ⟨_, -, rfl⟩ := h
      exact hsum

/-- Reports are added to what was reported before them. -/
lemma addProposerRewards_ok {blocks : List Block} {acc acc' : Option Gwei × Gwei}
    (h : blocks.foldlM b.addProposerReward acc = .ok acc') :
    acc'.1 = if blocks.filterMap (·.report.map (·.proposerComponent)) = [] then acc.1
      else some (acc.1.getD 0
        + (blocks.filterMap (·.report.map (·.proposerComponent))).sum) := by
  induction blocks generalizing acc with
  | nil =>
    rw [List.foldlM_nil, Calc.pure_ok] at h
    rw [h]
    rfl
  | cons block blocks ih =>
    rw [List.foldlM_cons, Calc.bind_ok] at h
    obtain ⟨next, hblock, h⟩ := h
    have hnext := addProposerReward_ok hblock
    rw [ih h, hnext]
    cases hr : block.report with
    | none => rw [List.filterMap_cons_none (by rw [hr]; rfl)]
    | some r =>
      rw [List.filterMap_cons_some (b := r.proposerComponent) (by rw [hr]; rfl),
        if_neg (List.cons_ne_nil _ _), List.sum_cons, ← Nat.add_assoc]
      split
      · next hnone => rw [hnone, List.sum_nil, Nat.add_zero]
      · rfl

lemma proposerRewards_reported {blocks : List Block} {reported : Option Gwei} {computed : Gwei}
    (h : b.proposerRewards v blocks = .ok (reported, computed)) :
    reported = reportedTotal (reportsOn v blocks) := by
  have hall := addProposerRewards_ok h
  simp only [Option.getD_none, Nat.zero_add] at hall
  exact hall

lemma reported_resolve (h : b.resolve v = .ok rec) :
    rec.reportedProposerReward = reportedTotal (reportsOn v b.visited) :=
  proposerRewards_reported (resolve_figures h).proposals

/-- What was reported to a validator by its record of a window. -/
lemma reported_of_build (hb : build net preference w = .ok b) (h : b.resolve v = .ok rec) :
    rec.reportedProposerReward
      = reportedTotal (reportsOn v ((w.reported net).flatMap (·.blocks))) := by
  rw [reported_resolve h, visited, phase_build hb, net.usesParticipationFlags_phaseAt,
    window_build hb, Window.reported]
  by_cases ha : net.altairEpoch ≤ w.current.epoch
  · rw [decide_eq_true ha, if_pos rfl, if_pos ha]
    simp
  · rw [decide_eq_false ha, if_neg Bool.false_ne_true, if_neg ha]
    simp [Window.blocksBeforeNext]

end Bundle

/-! ### Windows over a chain -/

/-- The epochs that end the windows in which the reports on the blocks of `e` count. -/
def Network.attributing (net : Network) (e : Epoch) : List Epoch :=
  if net.altairEpoch < e then [e]
  else if net.altairEpoch = e then []
  else if net.altairEpoch = e + 1 then [e + 1]
  else [e + 1, e + 2]

namespace Window

variable {net : Network} {snap : Epoch → Snapshot} {first last e : Nat}

/-- Snapshots of the epochs `first, …, last`. -/
def Consecutive (snap : Epoch → Snapshot) (first last : Epoch) : Prop :=
  ∀ e, first ≤ e → e ≤ last → (snap e).epoch = e

lemma Consecutive.inj (h : Consecutive snap first last) {k : Nat} (hk : first ≤ k ∧ k ≤ last)
    (he : first ≤ e ∧ e ≤ last) : snap k = snap e ↔ k = e := by
  constructor
  · intro heq
    rw [← h k hk.1 hk.2, heq, h e he.1 he.2]
  · rintro rfl
    rfl

/-- How often the reports on the blocks of an epoch count in a window. -/
lemma Consecutive.count_reported (h : Consecutive snap first last) {k : Nat}
    (hk : first + 2 ≤ k ∧ k ≤ last) (he : first ≤ e ∧ e ≤ last) :
    ((endingAt snap k).reported net).count (snap e)
      = if net.altairEpoch < k then [k].count e else [k - 2, k - 1].count e := by
  have hcount {j : Nat} (hj : first ≤ j ∧ j ≤ last) : (snap j == snap e) = (j == e) := by
    rw [Bool.eq_iff_iff, beq_iff_eq, beq_iff_eq]
    exact h.inj hj he
  have hone : first ≤ k - 1 ∧ k - 1 ≤ last := by omega
  have htwo : first ≤ k - 2 ∧ k - 2 ≤ last := by omega
  have hgenesis : ¬ k < 2 ∧ ¬ k < 1 := by omega
  have hprev : (endingAt snap k).prev = snap (k - 2) := if_neg hgenesis.1
  have hcurrent : (endingAt snap k).current = snap (k - 1) := if_neg hgenesis.2
  have hfork (a : Nat) : a ≤ k - 1 ↔ a < k := by omega
  rw [reported, hprev, hcurrent, h _ hone.1 hone.2]
  simp only [hfork]
  split
  · show [snap k].count (snap e) = _
    rw [List.count_singleton, List.count_singleton, hcount ⟨Nat.le_trans hone.1 (Nat.sub_le _ _), hk.2⟩]
  · simp only [List.count_cons, List.count_nil, hcount hone, hcount htwo]

/-- The windows of those over an epoch in which its reports count. -/
lemma count_attributing (net : Network) {e k : Nat} (hk : 2 ≤ k) :
    (net.attributing e).count k
      = if net.altairEpoch < k then [k].count e else [k - 2, k - 1].count e := by
  have harith (fork : Nat) :
      (if fork < e then [e] else if fork = e then [] else if fork = e + 1 then [e + 1]
          else [e + 1, e + 2]).count k
        = if fork < k then [k].count e else [k - 2, k - 1].count e := by
    split_ifs <;> simp only [List.count_cons, List.count_nil, beq_iff_eq] <;> split_ifs <;> omega
  exact harith net.altairEpoch

/-- Where the reports on the blocks of an epoch go. -/
structure AttributedOver (net : Network) (snap : Epoch → Snapshot) (first last e : Epoch) :
    Prop where
  /-- a record adds up the reports on the blocks of its validator in the snapshots that count -/
  records : ∀ k, first + 2 ≤ k → k ≤ last → ∀ preference b v rec,
    Bundle.build net preference (endingAt snap k) = .ok b → b.resolve v = .ok rec →
      rec.reportedProposerReward
        = reportedTotal (reportsOn v (((endingAt snap k).reported net).flatMap (·.blocks)))
  /-- the snapshot of the epoch counts in the windows listed, once in each -/
  windows : ∀ k, first + 2 ≤ k → k ≤ last →
    ((endingAt snap k).reported net).count (snap e) = (net.attributing e).count k
  listed : ∀ k ∈ net.attributing e, first + 2 ≤ k ∧ k ≤ last
  /-- this is one window since Altair, but for its first epoch, and in the epoch before it -/
  once : (∃! k, (first + 2 ≤ k ∧ k ≤ last) ∧ snap e ∈ (endingAt snap k).reported net) ↔
    net.altairEpoch < e ∨ net.altairEpoch = e + 1

/-- One window is listed from the second epoch of Altair on, and in the epoch before Altair. -/
lemma existsUnique_attributing (net : Network) (e : Epoch) :
    (∃! k, k ∈ net.attributing e) ↔ net.altairEpoch < e ∨ net.altairEpoch = e + 1 := by
  have harith (fork e : Nat) : (∃! k, k ∈ if fork < e then [e] else if fork = e then []
      else if fork = e + 1 then [e + 1] else [e + 1, e + 2]) ↔ fork < e ∨ fork = e + 1 := by
    split_ifs with h₁ h₂ h₃
    · simp [h₁]
    · simp [ExistsUnique, h₂]
    · simp [h₃]
    · simp only [h₁, h₃, or_self, iff_false]
      rintro ⟨k, -, hk⟩
      have hfirst := hk (e + 1) (by simp)
      have hsecond := hk (e + 2) (by simp)
      omega
  exact harith net.altairEpoch e

/-- **Whose records report a block.** Over a chain of consecutive snapshots the reports on the
blocks of an epoch, at least two epochs from either end, count in two windows before Altair, in
one for the epoch before Altair, in none for its first epoch, and in one from then on. -/
theorem reports_attributedOver (h : Consecutive snap first last) (hfirst : first + 2 ≤ e)
    (hlast : e + 2 ≤ last) : AttributedOver net snap first last e := by
  have he : first ≤ e ∧ e ≤ last := by omega
  have hwindows (k : Nat) (hk : first + 2 ≤ k ∧ k ≤ last) :
      ((endingAt snap k).reported net).count (snap e) = (net.attributing e).count k := by
    rw [h.count_reported hk he, count_attributing net (Nat.le_trans (Nat.le_add_left 2 first) hk.1)]
  have hlisted : ∀ k ∈ net.attributing e, first + 2 ≤ k ∧ k ≤ last := by
    have harith (fork : Nat) : ∀ k ∈ (if fork < e then [e] else if fork = e then []
        else if fork = e + 1 then [e + 1] else [e + 1, e + 2]), first + 2 ≤ k ∧ k ≤ last := by
      intro k hk
      split_ifs at hk <;> simp at hk <;> omega
    exact harith net.altairEpoch
  have hmem (k : Nat) : (first + 2 ≤ k ∧ k ≤ last) ∧ snap e ∈ (endingAt snap k).reported net ↔
      k ∈ net.attributing e := by
    constructor
    · rintro ⟨hk, hsnap⟩
      rw [← List.count_pos_iff, ← hwindows k hk]
      exact List.count_pos_iff.2 hsnap
    · intro hk
      refine ⟨hlisted k hk, ?_⟩
      rw [← List.count_pos_iff, hwindows k (hlisted k hk)]
      exact List.count_pos_iff.2 hk
  refine ⟨fun k _ _ preference b v rec hb hrec => Bundle.reported_of_build hb hrec,
    fun k hk hkl => hwindows k ⟨hk, hkl⟩, hlisted, ?_⟩
  rw [← existsUnique_attributing]
  exact existsUnique_congr hmem

/-! ### One report -/

/-- Epochs of four slots with one validator, for whose block in epoch 2 a reward is reported. -/
def reportedSnapshot (epoch : Epoch) : Snapshot :=
  let block : Block := ⟨9, 0, true, [], none, [], [], [], some ⟨5, 5, 0, 0, 0⟩⟩
  { Snapshot.placeholder epoch (4 * epoch + 3) with
    stateRoot := .ofNat 32 1
    validators := [⟨.zero, 32, false, 0, 0, farFuture, farFuture⟩]
    balances := [32]
    blockRoots := List.replicate 16 .zero
    blocks := if epoch = 2 then [block] else [] }

/-- Before Altair the report counts in the windows that end in epochs 3 and 4. -/
theorem reportedSnapshot_attributedOver :
    Consecutive reportedSnapshot 0 4 ∧ 0 + 2 ≤ (2 : Nat) ∧ 2 + 2 ≤ (4 : Nat) ∧
      AttributedOver .fourSlots reportedSnapshot 0 4 2 ∧
        Network.fourSlots.attributing 2 = [3, 4] := by
  have hsnap : Consecutive reportedSnapshot 0 4 := fun _ _ _ => rfl
  exact ⟨hsnap, by decide, by decide, reports_attributedOver hsnap (by decide) (by decide), by decide⟩

/-- The record of a validator says that this much was reported to it. -/
def Reports (net : Network) (preference : ReportPreference) (w : Window) (v : ValidatorIndex)
    (reported : Gwei) : Prop :=
  ∃ b rec, Bundle.build net preference w = .ok b ∧ b.resolve v = .ok rec ∧
    rec.reportedProposerReward = some reported

lemma reports_iff {preference : ReportPreference} {w : Window} {v : ValidatorIndex}
    {reported : Gwei} : w.Reports net preference v reported ↔
      ((Bundle.build net preference w >>= (·.resolve v)).toOption.bind
        (·.reportedProposerReward)) = some reported := by
  simp only [Option.bind_eq_some_iff, Calc.toOption_eq_some, Calc.bind_ok]
  constructor
  · rintro ⟨b, rec, hb, hrec, hreported⟩
    exact ⟨rec, ⟨b, hb, hrec⟩, hreported⟩
  · rintro ⟨rec, ⟨b, hb, hrec⟩, hreported⟩
    exact ⟨b, rec, hb, hrec, hreported⟩

/-- The only report of a chain need not be part of exactly one record of its proposer. -/
theorem not_reported_once :
    ¬ ∀ (net : Network) (preference : ReportPreference) (snap : Epoch → Snapshot)
      (first last e : Epoch) (block : Block) (report : RewardReport), net.validate = .ok () →
      Consecutive snap first last →
      (∀ k, first ≤ k → k ≤ last → (snap k).isPlaceholder = false) →
      first + 2 ≤ e → e + 2 ≤ last → block ∈ (snap e).blocks → block.proposed = true →
      block.report = some report →
      (∀ k, first ≤ k → k ≤ last → ∀ x ∈ (snap k).blocks, x.report.isSome → k = e ∧ x = block) →
      ∃! k, (first + 2 ≤ k ∧ k ≤ last) ∧
        (endingAt snap k).Reports net preference block.proposer report.proposerComponent := by
  intro hall
  have honly : ∀ k, 0 ≤ k → k ≤ 4 → ∀ x ∈ (reportedSnapshot k).blocks, x.report.isSome →
      k = 2 ∧ x = ⟨9, 0, true, [], none, [], [], [], some ⟨5, 5, 0, 0, 0⟩⟩ := by
    intro k _ _ x hx _
    by_cases hk : k = 2
    · subst hk
      exact ⟨rfl, List.mem_singleton.1 hx⟩
    · simp [reportedSnapshot, hk] at hx
  obtain ⟨k, -, hunique⟩ := hall .fourSlots .strictlyPositive reportedSnapshot 0 4 2 _ _ rfl
    (fun _ _ _ => rfl) (fun _ _ _ => rfl) (by decide) (by decide) List.mem_cons_self rfl rfl honly
  have hthree : (endingAt reportedSnapshot 3).Reports .fourSlots .strictlyPositive 0 5 :=
    reports_iff.2 (by cbv)
  have hfour : (endingAt reportedSnapshot 4).Reports .fourSlots .strictlyPositive 0 5 :=
    reports_iff.2 (by cbv)
  have hk := (hunique 3 ⟨by decide, hthree⟩).trans (hunique 4 ⟨by decide, hfour⟩).symm
  exact absurd hk (by decide)

end Window

end EpochRewards
