import EpochRewards.Proofs.Attribution
import EpochRewards.Proofs.FirstInclusions
import EpochRewards.Proofs.Frames
import EpochRewards.Proofs.Payments
import Mathlib

/-!
The two books of proposer rewards.

A payment is booked under its proposer and under the slot of its block. Records read the second
book, over the proposals of a validator in the blocks whose reports count. Where no two blocks of
the window have one slot, they find there what the first book says.
-/

namespace EpochRewards

/-- The blocks among these that a validator proposed. -/
def proposalsOf (v : ValidatorIndex) (blocks : List Block) : List Block :=
  blocks.filter fun block => block.proposed && block.proposer == v

lemma mem_proposalsOf {v : ValidatorIndex} {blocks : List Block} {block : Block} :
    block ∈ proposalsOf v blocks ↔
      block ∈ blocks ∧ block.proposed = true ∧ block.proposer = v := by
  rw [proposalsOf, List.mem_filter, Bool.and_eq_true, beq_iff_eq]

/-- An amount that is added at one key adds to a sum over keys if it is one of them. -/
lemma sum_ite_of_nodup {ks : List Nat} (h : ks.Nodup) (k n : Nat) :
    (ks.map fun j => if j = k then n else 0).sum = if k ∈ ks then n else 0 := by
  rw [List.sum_map_eq_nsmul_single k _ fun j hj _ => if_neg hj, if_pos rfl, h.count]
  split <;> simp

/-- Of blocks in slots of their own, a proposal of a validator is the only one in its slot. -/
lemma mem_slots_proposalsOf {blocks : List Block} (hslots : (blocks.map (·.slot)).Nodup)
    {block : Block} (hmem : block ∈ blocks) (hp : block.proposed = true) (v : ValidatorIndex) :
    block.slot ∈ (proposalsOf v blocks).map (·.slot) ↔ block.proposer = v := by
  rw [List.mem_map]
  constructor
  · rintro ⟨x, hx, hslot⟩
    obtain ⟨hx, -, hv⟩ := mem_proposalsOf.1 hx
    rw [← List.inj_on_of_nodup_map hslots hx hmem hslot]
    exact hv
  · intro hv
    exact ⟨block, mem_proposalsOf.2 ⟨hmem, hp, hv⟩, rfl⟩

/-- What is added under one key is added to the sum of a ledger. -/
lemma Ledger.sum_values_credit (l : Ledger Nat) (k n : Nat) :
    (l.insert k (l.amount k + n)).values.sum = l.values.sum + n := by
  have hsum := l.sum_values_insert k (l.amount k + n) id
  rw [List.map_id, List.map_id, Option.map_id, id, id] at hsum
  unfold amount at hsum ⊢
  omega

namespace Bundle

open Pass

/-- What is booked under a slot. -/
def manualAt (b : Bundle) (s : Slot) : Gwei :=
  ((b.blockTallies.get? s).map (·.manualReward)).getD 0

/-- What is booked under the slots of a validator's proposals. -/
def manualOn (b : Bundle) (v : ValidatorIndex) (blocks : List Block) : Gwei :=
  ((proposalsOf v blocks).map fun block => b.manualAt block.slot).sum

/-- Both books say the same, by validator over the blocks that are read, and in all. -/
structure Balanced (w : Window) (read : List Block) (b : Bundle) : Prop where
  window : b.window = w
  each : ∀ v, b.manualOn v read = b.maxProposerRewards.amount v
  total : (b.blockTallies.values.map (·.manualReward)).sum = b.maxProposerRewards.values.sum
  fits : ∀ v, b.maxProposerRewards.amount v < Word.bound

variable {w : Window} {read : List Block} {b c : Bundle}

lemma balanced_fresh {net : Network} {phase : Phase} {preference : ReportPreference}
    (h : fresh net phase preference w = .ok b) : Balanced w read b := by
  have hempty : b.maxProposerRewards = .empty := (fresh_ledgers h).1
  have hzero : ∀ t ∈ b.blockTallies.values, t.manualReward = 0 := by
    intro t ht
    obtain ⟨s, hs⟩ := Ledger.get?_of_mem_values ht
    rw [blockTallies_fresh h] at hs
    split at hs
    · rw [← Option.some.inj hs]
      rfl
    · cases hs
  have hmanual (s : Slot) : b.manualAt s = 0 := by
    rw [manualAt, blockTallies_fresh h]
    split <;> rfl
  refine ⟨window_fresh h, fun v => ?_, ?_, fun v => ?_⟩
  · simp [manualOn, hmanual, hempty, Ledger.amount]
  · rw [hempty]
    exact List.sum_eq_zero fun n hn => by
      obtain ⟨t, ht, rfl⟩ := List.mem_map.1 hn
      exact hzero t ht
  · rw [hempty]
    exact Nat.two_pow_pos 64

/-- The books are all that counts. -/
lemma Balanced.congr (h : Balanced w read b) (hw : c.window = b.window)
    (hp : c.maxProposerRewards = b.maxProposerRewards) (ht : c.blockTallies = b.blockTallies) :
    Balanced w read c := by
  have hmanual : c.manualAt = b.manualAt := by
    funext s
    rw [manualAt, manualAt, ht]
  refine ⟨hw.trans h.window, fun v => ?_, ?_, fun v => ?_⟩
  · rw [manualOn, hmanual, hp]
    exact h.each v
  · rw [ht, hp]
    exact h.total
  · rw [hp]
    exact h.fits v

lemma Balanced.insertBlockTally (h : Balanced w read b) {s : Slot} {t k : BlockTally}
    (ht : b.blockTallies.get? s = some t) (hk : k.manualReward = t.manualReward) :
    Balanced w read { b with blockTallies := b.blockTallies.insert s k } := by
  have hmanual : manualAt { b with blockTallies := b.blockTallies.insert s k } = b.manualAt := by
    funext r
    rw [manualAt, manualAt, Ledger.get?_insert]
    split
    · next hr => rw [hr, ht, Option.map_some, Option.map_some, hk]
    · rfl
  refine ⟨h.window, fun v => ?_, ?_, h.fits⟩
  · rw [manualOn, hmanual]
    exact h.each v
  · have hsum := b.blockTallies.sum_values_insert s k (·.manualReward)
    rw [ht, Option.map_some, Option.getD_some, hk] at hsum
    rw [← h.total]
    exact Nat.add_right_cancel hsum

section Payment

variable {block : Block} {amount : Gwei} {u : Unit}

/-- A payment for a block that is read is found by its proposer and by nobody else. -/
lemma manualOn_pay (hslots : (read.map (·.slot)).Nodup) (hmem : block ∈ read)
    (hp : block.proposed = true) (h : payProposer block amount b = .ok u c) (v : ValidatorIndex) :
    c.manualOn v read = b.manualOn v read + if block.proposer = v then amount else 0 := by
  obtain ⟨t, ht, -, rfl⟩ := payProposer_ok h
  have hmanual (x : Block) : manualAt { b with
      maxProposerRewards := b.maxProposerRewards.insert block.proposer
        (b.maxProposerRewards.amount block.proposer + amount)
      blockTallies := b.blockTallies.insert block.slot
        { t with manualReward := t.manualReward + amount } } x.slot
      = b.manualAt x.slot + if x.slot = block.slot then amount else 0 := by
    rw [manualAt, manualAt, Ledger.get?_insert]
    split
    · next hx => rw [hx, ht, Option.map_some, Option.map_some, Option.getD_some, Option.getD_some]
    · rfl
  have hnodup : ((proposalsOf v read).map (·.slot)).Nodup :=
    (List.filter_sublist.map _).nodup hslots
  have hshare := sum_ite_of_nodup hnodup block.slot amount
  rw [List.map_map] at hshare
  simp only [mem_slots_proposalsOf hslots hmem hp] at hshare
  rw [manualOn, manualOn, ← hshare]
  simp only [hmanual, List.sum_map_add]
  rfl

lemma Balanced.pay (hslots : (read.map (·.slot)).Nodup) (hmem : block ∈ read)
    (hp : block.proposed = true) (hb : Balanced w read b)
    (h : payProposer block amount b = .ok u c) : Balanced w read c := by
  have heach := manualOn_pay hslots hmem hp h
  have hpays := (payProposer_pays h).proposer
  obtain ⟨t, ht, hfits, rfl⟩ := payProposer_ok h
  refine ⟨hb.window, fun v => ?_, ?_, fun v => ?_⟩
  · rw [heach, hb.each, hpays, Payment.incomeOf_singleton]
  · have hslot : (List.map (·.manualReward) (b.blockTallies.insert block.slot
        { t with manualReward := t.manualReward + amount }).values).sum
        = (b.blockTallies.values.map (·.manualReward)).sum + amount := by
      have hsum := b.blockTallies.sum_values_insert block.slot
        { t with manualReward := t.manualReward + amount } (·.manualReward)
      rw [ht, Option.map_some, Option.getD_some] at hsum
      exact Nat.add_right_cancel (hsum.trans (by simp only []; omega))
    exact hslot.trans (hb.total ▸ (b.maxProposerRewards.sum_values_credit _ _).symm)
  · rw [hpays, Payment.incomeOf_singleton]
    split
    · next hv => exact hv ▸ hfits
    · exact hb.fits v

end Payment

/-! ### What the passes keep -/

lemma upholds_countVote (s : Slot) : Upholds (Balanced w read) (fun _ => True) (countVote s) := by
  intro b u c hb h
  obtain ⟨t, ht, rfl⟩ := countVote_ok h
  exact ⟨hb.insertBlockTally ht rfl, trivial⟩

lemma upholds_countNewVote (s : Slot) :
    Upholds (Balanced w read) (fun _ => True) (countNewVote s) := by
  intro b u c hb h
  obtain ⟨t, ht, rfl⟩ := countNewVote_ok h
  exact ⟨hb.insertBlockTally ht rfl, trivial⟩

lemma upholds_payProposer (hslots : (read.map (·.slot)).Nodup) {block : Block}
    (hmem : block ∈ read) (hp : block.proposed = true) (amount : Gwei) :
    Upholds (Balanced w read) (fun _ => True) (payProposer block amount) :=
  fun _ _ _ hb h => ⟨hb.pay hslots hmem hp h, trivial⟩

lemma upholds_setTally (v : ValidatorIndex) (t : ValidatorTally) :
    Upholds (Balanced w read) (fun _ => True) (setTally v t) :=
  .get_bind fun _ _ => .fault_bind fun _ _ => .modify fun _ hb => hb.congr rfl rfl rfl

lemma upholds_addAttesting (amount : Gwei) (flag : Flag) :
    Upholds (Balanced w read) (fun _ => True) (addAttesting amount flag) :=
  .get_bind fun _ _ => .fault_bind fun _ _ => .modify fun _ hb => hb.congr rfl rfl rfl

lemma balanced_ignoresSlashings : IgnoresSlashings (Balanced w read) :=
  fun _ _ hb => hb.congr rfl rfl rfl

lemma balanced_ignoresSync : IgnoresSync (Balanced w read) := fun _ _ hb => hb.congr rfl rfl rfl

lemma balanced_ignoresOpportunities : IgnoresOpportunities (Balanced w read) :=
  fun _ _ hb => hb.congr rfl rfl rfl

lemma balanced_ignoresTallies : IgnoresTallies (Balanced w read) :=
  fun _ _ hb => hb.congr rfl rfl rfl

/-- The credit is for a vote in one of these blocks. -/
def CreditIn (blocks : List Block) (credit : Credit) : Prop :=
  ∃ block ∈ blocks, credit.slot = block.slot ∧ credit.proposer = block.proposer

lemma upholds_creditVote {blocks : List Block} {block : Block} (hmem : block ∈ blocks)
    (delay : Nat) (flags : Flags) (v : ValidatorIndex) :
    Upholds (Balanced w read) (fun r => ∀ credit ∈ r, CreditIn blocks credit)
      (creditVote block delay flags v) := by
  refine .get_bind fun b _ => .lift_bind fun t _ => .lift_bind fun validator _ => ?_
  refine (upholds_countVote _).bind fun _ _ => ?_
  split
  · exact .pure fun _ h => nomatch h
  · refine (upholds_countNewVote _).bind fun _ _ => (upholds_setTally _ _).bind fun _ _ => ?_
    refine (Upholds.forM fun flag _ => upholds_addAttesting _ flag).bind fun _ _ => .pure ?_
    intro credit h
    rw [← Option.some.inj h]
    exact ⟨block, hmem, rfl, rfl⟩

lemma upholds_creditAttestation {blocks : List Block} {block : Block} (hmem : block ∈ blocks)
    (canonical : Canonical) (a : Attestation) :
    Upholds (Balanced w read) (fun credits => ∀ credit ∈ credits, CreditIn blocks credit)
      (creditAttestation canonical block a) := by
  refine .get_bind fun b _ => ?_
  dsimp only
  split
  · refine .lift_bind fun _ _ => .lift_bind fun _ _ => ?_
    refine (Upholds.modify fun _ hb => hb.congr rfl rfl rfl).bind fun _ _ => ?_
    refine (Upholds.mapM fun v _ => upholds_creditVote hmem _ _ v).bind fun rs hrs => .pure ?_
    intro credit h
    obtain ⟨r, hr, hcredit⟩ := List.mem_filterMap.1 h
    exact hrs r hr credit hcredit
  · exact .pure fun _ h => nomatch h

/-- Lists of credits for votes in these blocks make one. -/
lemma creditIn_flatten {blocks : List Block} {css : List (List Credit)}
    (h : ∀ credits ∈ css, ∀ credit ∈ credits, CreditIn blocks credit) :
    ∀ credit ∈ css.flatten, CreditIn blocks credit := by
  intro credit hc
  obtain ⟨credits, hmem, hc⟩ := List.mem_flatten.1 hc
  exact h credits hmem credit hc

lemma upholds_processAttestations :
    Upholds (Balanced w read)
      (fun credits => ∀ credit ∈ credits, CreditIn (votingBlocks w) credit)
      processAttestations := by
  refine .get_bind fun b hb => .lift_bind fun _ _ => ?_
  refine (Upholds.mapM fun block hmem => ?_).bind fun css h => .pure (creditIn_flatten h)
  refine (Upholds.mapM fun a _ => ?_).bind fun css h => .pure (creditIn_flatten h)
  exact upholds_creditAttestation (hb.window ▸ hmem) _ a

/-! ### Phase 0 -/

lemma sublist_blocksBeforeNext (w : Window) : w.blocksBeforeNext.Sublist w.blocks := by
  show (w.prev.blocks ++ w.current.blocks).Sublist
    (w.prev.blocks ++ (w.current.blocks ++ (w.next.blocks ++ [])))
  rw [← List.append_assoc]
  exact List.sublist_append_left _ _

lemma sublist_next (w : Window) : w.next.blocks.Sublist w.blocks := by
  show w.next.blocks.Sublist (w.prev.blocks ++ (w.current.blocks ++ (w.next.blocks ++ [])))
  rw [List.append_nil, ← List.append_assoc]
  exact List.sublist_append_right _ _

lemma slots_blocksBeforeNext (h : (w.blocks.map (·.slot)).Nodup) :
    (w.blocksBeforeNext.map (·.slot)).Nodup := ((sublist_blocksBeforeNext w).map _).nodup h

lemma slots_next (h : (w.blocks.map (·.slot)).Nodup) : (w.next.blocks.map (·.slot)).Nodup :=
  ((sublist_next w).map _).nodup h

lemma upholds_payInclusion (hslots : (w.blocksBeforeNext.map (·.slot)).Nodup) {credit : Credit}
    (h : CreditIn (votingBlocks w) credit) :
    Upholds (Balanced w w.blocksBeforeNext) (fun _ => True) (Phase0.payInclusion credit) := by
  obtain ⟨block, hmem, hslot, hproposer⟩ := h
  obtain ⟨hmem, hp⟩ := mem_votingBlocks.1 hmem
  unfold Phase0.payInclusion
  split
  · refine .get_bind fun b _ => .lift_bind fun base _ => ?_
    rw [hslot, hproposer]
    exact upholds_payProposer hslots hmem hp _
  · exact .pure trivial

lemma upholds_phase0 (hslots : (w.blocksBeforeNext.map (·.slot)).Nodup) :
    Upholds (Balanced w w.blocksBeforeNext) (fun _ => True) Phase0.prepare := by
  refine .get_bind fun b _ => ?_
  split
  · refine (processSlashings_upholds balanced_ignoresSlashings _).bind fun _ _ => ?_
    refine (indexOpportunities_upholds balanced_ignoresOpportunities).bind fun _ _ => ?_
    refine Upholds.bind (R := fun _ => True) ?_ fun _ _ => ?_
    · exact upholds_processAttestations.bind fun credits h =>
        .forM fun credit hc => upholds_payInclusion hslots (h credit hc)
    · exact Phase0.processMaxRewards_upholds (addAttesterReward_upholds balanced_ignoresTallies)
  · exact .pure trivial

/-! ### Altair -/

lemma mem_proposedBlocks {s : Snapshot} {block : Block} :
    block ∈ s.proposedBlocks ↔ block ∈ s.blocks ∧ block.proposed = true :=
  List.mem_filter

section Altair

variable (hslots : (w.next.blocks.map (·.slot)).Nodup)
include hslots

lemma upholds_processSyncAggregates :
    Upholds (Balanced w w.next.blocks) (fun _ => True) Altair.processSyncAggregates := by
  refine .get_bind fun b hb => .fault_bind fun _ _ => .fault_bind fun _ _ => .forM fun block h => ?_
  rw [hb.window, mem_proposedBlocks] at h
  unfold Altair.paySyncAggregate
  split
  · exact .pure trivial
  · exact .fault_bind fun _ _ => upholds_payProposer hslots h.1 h.2 _

lemma upholds_includeAttestation {block : Block} (hmem : block ∈ w.next.blocks)
    (hp : block.proposed = true) (earned : Altair.Earned) (a : Attestation) :
    Upholds (Balanced w w.next.blocks) (fun _ => True)
      (Altair.includeAttestation block earned a) := by
  refine .get_bind fun b _ => ?_
  dsimp only
  split
  · exact .pure trivial
  · split
    · refine .lift_bind fun _ _ => .lift_bind fun _ _ => .lift_bind fun _ _ => ?_
      refine Upholds.bind (R := fun _ => True) (.foldlM fun v _ acc => ?_) fun _ _ =>
        (upholds_payProposer hslots hmem hp _).bind fun _ _ => .pure trivial
      -- a single vote changes counts only
      refine .get_bind fun _ _ => .lift_bind fun _ _ => (upholds_countVote _).bind fun _ _ => ?_
      split
      · exact (upholds_countNewVote _).bind fun _ _ => .pure trivial
      · exact .pure trivial
    · exact .pure trivial

lemma upholds_processIncludedVotes :
    Upholds (Balanced w w.next.blocks) (fun _ => True) Altair.processIncludedVotes := by
  refine .get_bind fun b hb => Upholds.bind (R := fun _ => True) ?_ fun _ _ => .pure trivial
  refine .foldlM fun block h earned => .foldlM fun a _ earned => ?_
  rw [hb.window, mem_proposedBlocks] at h
  exact upholds_includeAttestation hslots h.1 h.2 earned a

lemma upholds_altair :
    Upholds (Balanced w w.next.blocks) (fun _ => True) Altair.prepare := by
  refine .get_bind fun b _ => ?_
  split
  · refine (processSlashings_upholds balanced_ignoresSlashings _).bind fun _ _ => ?_
    refine (upholds_processSyncAggregates hslots).bind fun _ _ => ?_
    refine (indexOpportunities_upholds balanced_ignoresOpportunities).bind fun _ _ => ?_
    refine upholds_processAttestations.bind fun _ _ => ?_
    refine (upholds_processIncludedVotes hslots).bind fun _ _ => ?_
    refine (Altair.processMaxRewards_upholds
      (addAttesterReward_upholds balanced_ignoresTallies)).bind fun _ _ => ?_
    exact Altair.processSyncCommittee_upholds balanced_ignoresSync
  · exact .pure trivial

end Altair

/-! ### What records read -/

section Reading

variable {block : Block} {blocks : List Block} {acc acc' : Option Nat × Nat}
  {v : ValidatorIndex}

/-- One block is added to both sums. -/
lemma addProposerReward_iff : b.addProposerReward acc block = .ok acc' ↔
    (match block.report with
      | none => acc.1 = acc'.1
      | some r => acc.1.getD 0 + r.proposerComponent < Word.bound ∧
          some (acc.1.getD 0 + r.proposerComponent) = acc'.1) ∧
      match b.blockTallies.get? block.slot with
      | none => acc.2 = acc'.2
      | some t => acc.2 + t.manualReward < Word.bound ∧ acc.2 + t.manualReward = acc'.2 := by
  obtain ⟨reported, computed⟩ := acc
  obtain ⟨reported', computed'⟩ := acc'
  unfold addProposerReward
  cases block.report <;> cases b.blockTallies.get? block.slot <;>
    simp [Calc.bind_ok, Calc.pure_ok, Calc.map_ok, Word.add_ok, and_assoc, and_left_comm]

lemma computed_addProposerReward (h : b.addProposerReward acc block = .ok acc') :
    acc'.2 = acc.2 + b.manualAt block.slot := by
  have hcomputed := (addProposerReward_iff.1 h).2
  rw [manualAt]
  split at hcomputed
  · next hs =>
    rw [hs, ← hcomputed]
    rfl
  · next t hs =>
    rw [hs, ← hcomputed.2]
    rfl

lemma computed_addProposerRewards (h : blocks.foldlM b.addProposerReward acc = .ok acc') :
    acc'.2 = acc.2 + (blocks.map fun block => b.manualAt block.slot).sum := by
  induction blocks generalizing acc with
  | nil =>
    rw [List.foldlM_nil, Calc.pure_ok] at h
    rw [h]
    rfl
  | cons block blocks ih =>
    rw [List.foldlM_cons, Calc.bind_ok] at h
    obtain ⟨next, hblock, h⟩ := h
    rw [ih h, computed_addProposerReward hblock, List.map_cons, List.sum_cons, Nat.add_assoc]

lemma exists_addProposerReward
    (hr : acc.1.getD 0 + ((block.report.map (·.proposerComponent)).getD 0) < Word.bound)
    (hm : acc.2 + b.manualAt block.slot < Word.bound) :
    ∃ acc', b.addProposerReward acc block = .ok acc' := by
  simp only [addProposerReward_iff]
  rw [manualAt] at hm
  cases hs : block.report <;> cases ht : b.blockTallies.get? block.slot <;> rw [hs] at hr <;>
    rw [ht] at hm
  · exact ⟨acc, rfl, rfl⟩
  · exact ⟨(acc.1, acc.2 + _), rfl, hm, rfl⟩
  · exact ⟨(_, acc.2), ⟨hr, rfl⟩, rfl⟩
  · exact ⟨(_, _), ⟨hr, rfl⟩, hm, rfl⟩

/-- Sums that fit are added up. -/
lemma exists_addProposerRewards
    (hr : acc.1.getD 0 + (blocks.filterMap (·.report.map (·.proposerComponent))).sum < Word.bound)
    (hm : acc.2 + (blocks.map fun block => b.manualAt block.slot).sum < Word.bound) :
    ∃ acc', blocks.foldlM b.addProposerReward acc = .ok acc' := by
  induction blocks generalizing acc with
  | nil => exact ⟨acc, rfl⟩
  | cons block blocks ih =>
    have hreport : (List.filterMap (·.report.map (·.proposerComponent)) (block :: blocks)).sum
        = (block.report.map (·.proposerComponent)).getD 0
          + (blocks.filterMap (·.report.map (·.proposerComponent))).sum := by
      cases hs : block.report with
      | none =>
        rw [List.filterMap_cons_none (by rw [hs]; rfl)]
        exact (Nat.zero_add _).symm
      | some r =>
        rw [List.filterMap_cons_some (b := r.proposerComponent) (by rw [hs]; rfl)]
        exact List.sum_cons
    rw [hreport] at hr
    rw [List.map_cons, List.sum_cons] at hm
    obtain ⟨next, hnext⟩ : ∃ next : Option Nat × Nat,
        b.addProposerReward acc block = .ok next :=
      exists_addProposerReward (by omega) (by omega)
    have hreported : next.1.getD 0
        = acc.1.getD 0 + (block.report.map (·.proposerComponent)).getD 0 := by
      rw [addProposerReward_ok hnext]
      cases block.report <;> rfl
    have hcomputed := computed_addProposerReward hnext
    obtain ⟨acc', h⟩ : ∃ acc', blocks.foldlM b.addProposerReward next = .ok acc' :=
      ih (by omega) (by omega)
    exact ⟨acc', by rw [List.foldlM_cons, hnext]; exact h⟩

/-- Over blocks that are read a record finds what the ledger of proposers says. -/
lemma Balanced.computed {reported : Option Gwei} {computed : Gwei} (hb : Balanced w read b)
    (h : b.proposerRewards v read = .ok (reported, computed)) :
    computed = b.maxProposerRewards.amount v := by
  rw [← hb.each]
  exact (computed_addProposerRewards h).trans (Nat.zero_add _)

lemma Balanced.proposerRewards (hb : Balanced w read b)
    (hr : (reportsOn v read).sum < Word.bound) :
    b.proposerRewards v read
      = .ok (reportedTotal (reportsOn v read), b.maxProposerRewards.amount v) := by
  have hm : b.manualOn v read < Word.bound := hb.each v ▸ hb.fits v
  obtain ⟨⟨reported, computed⟩, h⟩ : ∃ acc', b.proposerRewards v read = .ok acc' :=
    exists_addProposerRewards ((Nat.zero_add _).trans_lt hr) ((Nat.zero_add _).trans_lt hm)
  rw [h, proposerRewards_reported h, hb.computed h]

lemma Balanced.altairRecord {rec : ValidatorRecord} (hb : Balanced w w.next.blocks b)
    (h : Altair.record b v = .ok rec) :
    rec.computedProposerReward = b.maxProposerRewards.amount v := by
  have hproposals := (altair_figures h).proposals
  rw [hb.window] at hproposals
  exact hb.computed hproposals

lemma Balanced.phase0Record {rec : ValidatorRecord} (hb : Balanced w w.blocksBeforeNext b)
    (h : Phase0.record b v = .ok rec) :
    rec.computedProposerReward = b.maxProposerRewards.amount v := by
  have hproposals := (phase0_figures h).proposals
  rw [hb.window] at hproposals
  exact hb.computed hproposals

end Reading

/-- The ledger of proposers and the tallies of blocks say the same, and so do records. -/
structure BooksAgree (record : Bundle → ValidatorIndex → Calc ValidatorRecord)
    (read : List Block) (b : Bundle) : Prop where
  /-- by validator, over its proposals among the blocks that records read -/
  each : ∀ v, b.manualOn v read = b.maxProposerRewards.amount v
  /-- in all, over every block of the window -/
  total : (b.blockTallies.values.map (·.manualReward)).sum = b.maxProposerRewards.values.sum
  /-- reports that overflow are all that keeps a record from finding the sum -/
  readable : ∀ v, (reportsOn v read).sum < Word.bound → b.proposerRewards v read
    = .ok (reportedTotal (reportsOn v read), b.maxProposerRewards.amount v)
  recorded : ∀ v rec, record b v = .ok rec →
    rec.computedProposerReward = b.maxProposerRewards.amount v

end Bundle

namespace Window

/-- **Two books of proposer rewards.** If no two blocks of a window have one slot, then after the
passes of either set of rules what was paid to each validator is what the slots of its proposals
have, and what was paid in all is what all slots have. -/
theorem books_agree {w : Window} (hslots : (w.blocks.map (·.slot)).Nodup) (net : Network)
    (preference : ReportPreference) :
    (∀ b c, Bundle.openPhase0 net preference w = .ok b → Phase0.prepare b = .ok () c →
        Bundle.BooksAgree Phase0.record w.blocksBeforeNext c) ∧
      ∀ b c, Bundle.openAltair net preference w = .ok b → Altair.prepare b = .ok () c →
        Bundle.BooksAgree Altair.record w.next.blocks c := by
  constructor
  · intro b c hb hc
    have hbalanced := (Bundle.upholds_phase0 (Bundle.slots_blocksBeforeNext hslots)
      (Bundle.balanced_fresh hb) hc).1
    exact ⟨hbalanced.each, hbalanced.total, fun v => hbalanced.proposerRewards,
      fun v rec => hbalanced.phase0Record⟩
  · intro b c hb hc
    have hbalanced := (Bundle.upholds_altair (Bundle.slots_next hslots)
      (Bundle.balanced_fresh hb) hc).1
    exact ⟨hbalanced.each, hbalanced.total, fun v => hbalanced.proposerRewards,
      fun v rec => hbalanced.altairRecord⟩

/-- Two validators with a block each in the first and in the last of three epochs, the second of
which repeats the vote that the first has. -/
def paidWindow : Window :=
  let block (slot : Slot) (proposer : ValidatorIndex) (bits : List Bool) : Block :=
    let vote : VoteData := ⟨slot - slot % 4, 0, .zero, ⟨0, .zero⟩, ⟨slot / 4, .zero⟩⟩
    ⟨slot, proposer, true, [⟨.ofBits bits, vote⟩], none, [], [], [], none⟩
  let validator : Validator := ⟨.zero, 32, false, 0, 0, farFuture, farFuture⟩
  let snapshot (epoch : Epoch) (blocks : List Block) : Snapshot :=
    { Snapshot.placeholder epoch (4 * epoch + 3) with
      stateRoot := .ofNat 32 1
      validators := [validator, validator]
      balances := [32, 32]
      blockRoots := List.replicate 16 .zero
      blocks
      duties := ⟨[⟨4 * epoch, 0, [0, 1]⟩], []⟩ }
  ⟨snapshot 1 [block 5 1 [true, false], block 6 0 [true, true]], snapshot 2 [],
    snapshot 3 [block 13 1 [true, false], block 14 0 [true, true]]⟩

/-- What proposers were paid by a pass that succeeds. -/
def paidBy (opened : Except Fault Bundle) (pass : Pass Unit) :
    Option (List (ValidatorIndex × Gwei)) :=
  match opened with
  | .error _ => none
  | .ok b => match pass b with
    | .error _ _ => none
    | .ok _ c => some c.maxProposerRewards.entries

lemma exists_of_paidBy {opened : Except Fault Bundle} {pass : Pass Unit}
    {paid : List (ValidatorIndex × Gwei)} (h : paidBy opened pass = some paid) :
    ∃ b c, opened = .ok b ∧ pass b = .ok () c ∧ c.maxProposerRewards.entries = paid := by
  unfold paidBy at h
  split at h
  · cases h
  · next b =>
    split at h
    · cases h
    · next c hc => exact ⟨b, c, rfl, hc, Option.some.inj h⟩

lemma paidWindow_paid :
    paidBy (Bundle.openPhase0 .fourSlots .strictlyPositive paidWindow) Phase0.prepare
        = some [(0, 8), (1, 8)] ∧
      paidBy (Bundle.openAltair .fourSlots .strictlyPositive paidWindow) Altair.prepare
        = some [(0, 22), (1, 30)] := by
  constructor
  · cbv
  · cbv

/-- Both sets of rules pay both proposers. -/
theorem paidWindow_books :
    (paidWindow.blocks.map (·.slot)).Nodup ∧
      (∃ b c, Bundle.openPhase0 .fourSlots .strictlyPositive paidWindow = .ok b ∧
        Phase0.prepare b = .ok () c ∧ c.maxProposerRewards.entries = [(0, 8), (1, 8)] ∧
          Bundle.BooksAgree Phase0.record paidWindow.blocksBeforeNext c) ∧
        ∃ b c, Bundle.openAltair .fourSlots .strictlyPositive paidWindow = .ok b ∧
          Altair.prepare b = .ok () c ∧ c.maxProposerRewards.entries = [(0, 22), (1, 30)] ∧
            Bundle.BooksAgree Altair.record paidWindow.next.blocks c := by
  have hslots : (paidWindow.blocks.map (·.slot)).Nodup := by decide
  obtain ⟨hphase0, haltair⟩ := books_agree hslots .fourSlots .strictlyPositive
  obtain ⟨b, c, hb, hc, hpaid⟩ := exists_of_paidBy paidWindow_paid.1
  obtain ⟨b', c', hb', hc', hpaid'⟩ := exists_of_paidBy paidWindow_paid.2
  exact ⟨hslots, ⟨b, c, hb, hc, hpaid, hphase0 b c hb hc⟩, b', c', hb', hc', hpaid',
    haltair b' c' hb' hc'⟩

end Window

end EpochRewards
