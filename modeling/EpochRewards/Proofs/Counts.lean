import EpochRewards.Proofs.Contracts
import EpochRewards.Reward.Accounting
import Mathlib

/-!
Counts of votes and of aggregates, and how far the passes raise them.

A pass counts the votes that it walks before it knows whether the rest of it will succeed, so the
bounds are about failed passes as well. Each aggregate is walked at most twice.
-/

namespace EpochRewards

/-- No count of a bundle of the window `w` exceeds `n`. -/
structure Bundle.Counts (w : Window) (n : Nat) (b : Bundle) : Prop where
  window : b.window = w
  attestations : b.attestationCount ≤ n
  votes : ∀ s t, b.blockTallies.get? s = some t → t.votesIncluded ≤ n ∧ t.newVotesIncluded ≤ n

namespace Bundle.Counts

variable {w : Window} {b : Bundle} {m n : Nat}

lemma mono (h : b.Counts w m) (hmn : m ≤ n) : b.Counts w n where
  window := h.window
  attestations := Nat.le_trans h.attestations hmn
  votes s t ht := ⟨Nat.le_trans (h.votes s t ht).1 hmn, Nat.le_trans (h.votes s t ht).2 hmn⟩

lemma setBlockTally (h : b.Counts w n) (s : Slot) {t : BlockTally}
    (ht : t.votesIncluded ≤ n ∧ t.newVotesIncluded ≤ n) :
    Counts w n { b with blockTallies := b.blockTallies.insert s t } where
  window := h.window
  attestations := h.attestations
  votes r k hk := by
    rw [Ledger.get?_insert] at hk
    split at hk
    · cases hk
      exact ht
    · exact h.votes r k hk

end Bundle.Counts

namespace Pass

open EpochRewards.Bundle (Counts)

/-- The pass raises no count by more than `k`, even if it fails. -/
def Raises (w : Window) (k : Nat) {α : Type} (m : Pass α) : Prop :=
  ∀ n b, b.Counts w n → Meets (fun _ => Counts w (n + k)) (fun _ => Counts w (n + k)) (m b)

variable {α β : Type} {w : Window} {k l : Nat}

namespace Raises

lemma mono {m : Pass α} (h : Raises w k m) (hkl : k ≤ l) : Raises w l m := by
  intro n b hb
  have hle := Nat.add_le_add_left hkl n
  exact (h n b hb).imp (fun _ _ hc => Counts.mono hc hle) fun _ _ hc => Counts.mono hc hle

lemma pure (a : α) : Raises w 0 (Pure.pure a : Pass α) := fun _ _ hb => Meets.pure hb

lemma lift (x : Calc α) : Raises w 0 (liftM x : Pass α) := by
  intro n b hb
  cases x with
  | ok a => exact hb
  | error e => exact hb

lemma fault (x : Except Fault α) : Raises w 0 (liftM x : Pass α) := by
  intro n b hb
  cases x with
  | ok a => exact hb
  | error e => exact hb

lemma modify {f : Bundle → Bundle} (hf : ∀ n b, b.Counts w n → (f b).Counts w (n + k)) :
    Raises w k (modify f) := fun n b hb => Meets.modify (hf n b hb)

lemma get_bind {f : Bundle → Pass β} (h : ∀ b, b.window = w → Raises w k (f b)) :
    Raises w k (get >>= f) := fun n b hb => Meets.get_bind (h b hb.window n b hb)

lemma bind {m : Pass α} {f : α → Pass β} (hm : Raises w k m) (hf : ∀ a, Raises w l (f a)) :
    Raises w (k + l) (m >>= f) := by
  intro n b hb
  refine (hm.mono (Nat.le_add_right k l) n b hb).bind fun a c hc _ => ?_
  have hmc := hm n b hb
  rw [hc] at hmc
  rw [← Nat.add_assoc]
  exact hf a _ c hmc

lemma lift_bind {x : Calc α} {f : α → Pass β} (hf : ∀ a, x = .ok a → Raises w k (f a)) :
    Raises w k (liftM x >>= f) := fun n b hb =>
  Meets.lift_bind (fun _ _ => hb.mono (Nat.le_add_right n k)) fun a ha => hf a ha n b hb

lemma bind_zero {m : Pass α} {f : α → Pass β} (hm : Raises w 0 m) (hf : ∀ a, Raises w k (f a)) :
    Raises w k (m >>= f) := (hm.bind hf).mono (Nat.le_of_eq (Nat.zero_add k))

/-! ### Loops -/

lemma forM {f : α → Pass PUnit} {xs : List α} (hf : ∀ x, Raises w 0 (f x)) :
    Raises w 0 (xs.forM f) := fun _ _ hb => Meets.forM_mem hb fun x _ c hc => hf x _ c hc

lemma mapM {f : α → Pass β} {g : α → Nat} (hf : ∀ x, Raises w (g x) (f x)) (xs : List α) :
    Raises w (xs.map g).sum (xs.mapM f) := by
  induction xs with
  | nil => exact .pure []
  | cons x xs ih =>
    rw [List.mapM_cons, List.map_cons, List.sum_cons]
    exact (hf x).bind fun y => ih.bind fun ys => .pure (y :: ys)

lemma foldlM {f : β → α → Pass β} {g : α → Nat} (hf : ∀ y x, Raises w (g x) (f y x))
    (xs : List α) (y : β) : Raises w (xs.map g).sum (xs.foldlM f y) := by
  induction xs generalizing y with
  | nil => exact .pure y
  | cons x xs ih =>
    rw [List.foldlM_cons, List.map_cons, List.sum_cons]
    exact (hf y x).bind fun z => ih z

end Raises

end Pass

/-! ### Votes of aggregates -/

lemma BitVector.length_onesFrom (i : Nat) (bits : List Bool) :
    (onesFrom i bits).length = bits.count true := by
  induction bits generalizing i with
  | nil => rfl
  | cons bit bits ih => cases bit <;> simp [onesFrom, ih]

lemma Duties.length_attesters {d : Duties} {a : Attestation} {vs : List ValidatorIndex}
    (h : d.attesters a = .ok vs) : vs.length = a.bits.countOnes := by
  simp only [attesters, Calc.bind_ok] at h
  obtain ⟨members, -, h⟩ := h
  rw [← (Calc.mapM_ok.1 h).length_eq]
  exact BitVector.length_onesFrom 0 _

/-- An aggregate and its votes, counted together. -/
def Attestation.size (a : Attestation) : Nat := 1 + a.bits.countOnes

def Block.size (block : Block) : Nat := (block.attestations.map (·.size)).sum

/-- All aggregates of a window and all votes in them. -/
def Window.size (w : Window) : Nat := (w.blocks.map (·.size)).sum

lemma Window.size_eq (w : Window) :
    w.size = (w.blocks.flatMap (·.attestations)).length
      + ((w.blocks.flatMap (·.attestations)).map (·.bits.countOnes)).sum := by
  have hsize : w.size = ((w.blocks.flatMap (·.attestations)).map (·.size)).sum := by
    rw [List.map_flatMap, List.flatMap_def, List.sum_flatten, List.map_map]
    rfl
  rw [hsize]
  simp only [Attestation.size, List.sum_map_add, List.map_const', List.sum_replicate, smul_eq_mul,
    Nat.mul_one]

namespace Bundle

open Pass

variable {w : Window}

/-! ### Changes of single figures -/

lemma raises_countVote (s : Slot) : Raises w 1 (countVote s) := by
  intro n b hb
  have hmono := hb.mono (Nat.le_add_right n 1)
  refine .get_bind (.lift_bind (fun _ _ => hmono) fun t ht => .modify (hmono.setBlockTally s ?_))
  rw [blockTally, Calc.orFail_ok] at ht
  obtain ⟨hvotes, hnew⟩ := hb.votes s t ht
  exact ⟨Nat.succ_le_succ hvotes, Nat.le_succ_of_le hnew⟩

lemma raises_countNewVote (s : Slot) : Raises w 1 (countNewVote s) := by
  intro n b hb
  have hmono := hb.mono (Nat.le_add_right n 1)
  refine .get_bind (.lift_bind (fun _ _ => hmono) fun t ht => .modify (hmono.setBlockTally s ?_))
  rw [blockTally, Calc.orFail_ok] at ht
  obtain ⟨hvotes, hnew⟩ := hb.votes s t ht
  exact ⟨Nat.le_succ_of_le hvotes, Nat.succ_le_succ hnew⟩

lemma raises_addManualReward (s : Slot) (amount : Gwei) :
    Raises w 0 (addManualReward s amount) := by
  intro n b hb
  refine .get_bind (.lift_bind (fun _ _ => hb) fun t ht => .fault_bind (fun _ _ => hb) fun _ _ =>
    .modify (hb.setBlockTally s ?_))
  rw [blockTally, Calc.orFail_ok] at ht
  exact hb.votes s t ht

lemma raises_creditProposer (v : ValidatorIndex) (amount : Gwei) :
    Raises w 0 (creditProposer v amount) :=
  .get_bind fun _ _ => .bind_zero (.fault _) fun _ => .modify fun _ _ hb => ⟨hb.1, hb.2, hb.3⟩

lemma raises_creditSlashing (v : ValidatorIndex) (amount : Gwei) :
    Raises w 0 (creditSlashing v amount) :=
  .get_bind fun _ _ => .bind_zero (.fault _) fun _ => .modify fun _ _ hb => ⟨hb.1, hb.2, hb.3⟩

lemma raises_creditSync (v : ValidatorIndex) (amount : Gwei) : Raises w 0 (creditSync v amount) :=
  .get_bind fun _ _ => .bind_zero (.fault _) fun _ => .modify fun _ _ hb => ⟨hb.1, hb.2, hb.3⟩

lemma raises_addAttesting (amount : Gwei) (flag : Flag) : Raises w 0 (addAttesting amount flag) :=
  .get_bind fun _ _ => .bind_zero (.fault _) fun _ => .modify fun _ _ hb => ⟨hb.1, hb.2, hb.3⟩

lemma raises_payProposer (block : Block) (amount : Gwei) : Raises w 0 (payProposer block amount) :=
  .bind (raises_creditProposer _ _) fun _ => raises_addManualReward _ _

lemma raises_setTally (v : ValidatorIndex) (t : ValidatorTally) : Raises w 0 (setTally v t) :=
  .get_bind fun _ _ => .bind_zero (.fault _) fun _ => .modify fun _ _ hb => ⟨hb.1, hb.2, hb.3⟩

lemma raises_addAttesterReward (v : ValidatorIndex) (amount : Gwei) :
    Raises w 0 (addAttesterReward v amount) :=
  .get_bind fun _ _ => .bind_zero (.lift _) fun _ => .bind_zero (.fault _) fun _ =>
    raises_setTally _ _

/-! ### Passes of both phases -/

lemma raises_processSlashings (share : ShareRule) : Raises w 0 (processSlashings share) :=
  .get_bind fun _ _ => .forM fun _ => .forM fun _ => .get_bind fun _ _ =>
    .bind_zero (.lift _) fun _ => .bind_zero (.fault _) fun _ =>
      .bind (raises_creditSlashing _ _) fun _ => raises_creditSlashing _ _

lemma raises_indexOpportunities : Raises w 0 indexOpportunities :=
  .get_bind fun _ _ => .forM fun _ => .get_bind fun _ _ => .bind_zero (.lift _) fun _ =>
    .modify fun _ _ hb => ⟨hb.1, hb.2, hb.3⟩

lemma raises_creditVote (block : Block) (delay : Nat) (flags : Flags) (v : ValidatorIndex) :
    Raises w 2 (creditVote block delay flags v) := by
  refine .get_bind fun b _ => .bind_zero (.lift _) fun t => .bind_zero (.lift _) fun validator =>
    .bind (k := 1) (l := 1) (raises_countVote _) fun _ => ?_
  split
  · exact (Raises.pure _).mono (Nat.zero_le 1)
  · exact .bind (l := 0) (raises_countNewVote _) fun _ => .bind_zero (raises_setTally _ _) fun _ =>
      .bind_zero (.forM (raises_addAttesting _)) fun _ => .pure _

lemma sum_map_two {vs : List ValidatorIndex} : (vs.map fun _ => 2).sum = 2 * vs.length := by
  rw [List.map_const', List.sum_replicate, smul_eq_mul, Nat.mul_comm]

lemma raises_creditAttestation (canonical : Canonical) (block : Block) (a : Attestation) :
    Raises w (2 * a.size) (creditAttestation canonical block a) := by
  refine .get_bind fun b _ => ?_
  dsimp only
  split
  · refine .lift_bind fun _ _ => .lift_bind fun members hmembers => ?_
    have hvotes := Raises.mapM (w := w) (raises_creditVote block (block.slot - a.data.slot)
      (b.voteFlags a.data (block.slot - a.data.slot) canonical ‹_›)) members
    rw [sum_map_two, Duties.length_attesters hmembers] at hvotes
    have hcount : Raises w 1 (modify fun b : Bundle =>
        { b with attestationCount := b.attestationCount + 1 }) :=
      .modify fun n b hb => ⟨hb.window, Nat.succ_le_succ hb.attestations,
        (hb.mono (Nat.le_succ n)).votes⟩
    refine (hcount.bind fun _ => hvotes.bind fun _ => .pure _).mono ?_
    unfold Attestation.size
    omega
  · exact (Raises.pure _).mono (Nat.zero_le _)

lemma raises_creditBlock (canonical : Canonical) (block : Block) :
    Raises w (2 * block.size) (creditBlock canonical block) := by
  rw [Block.size, ← List.sum_map_mul_left]
  exact (Raises.mapM (raises_creditAttestation canonical block) _).bind fun _ => .pure _

/-- Votes are walked in some of the window's blocks, in any order. -/
lemma sum_size_le {blocks : List Block} (h : blocks.Subperm w.blocks) :
    (blocks.map fun block => 2 * block.size).sum ≤ 2 * w.size := by
  obtain ⟨sorted, hperm, hsub⟩ := h
  rw [List.sum_map_mul_left, ← (hperm.map _).sum_eq]
  exact Nat.mul_le_mul_left 2 ((hsub.map _).sum_le_sum fun _ _ => Nat.zero_le _)

lemma raises_processAttestations : Raises w (2 * w.size) processAttestations := by
  refine .get_bind fun b hb => .lift_bind fun root _ => ?_
  rw [hb]
  have hsub : (votingBlocks w).Subperm w.blocks := by
    refine (List.mergeSort_perm _ _).subperm.trans (List.filter_sublist.trans ?_).subperm
    simp [Window.blocks, Window.snapshots, Window.blocksBeforeNext]
  exact ((Raises.mapM (raises_creditBlock _) _).bind fun _ => .pure _).mono (sum_size_le hsub)

end Bundle

open EpochRewards.Bundle Pass

variable {w : Window}

/-! ### Passes before Altair -/

namespace Phase0

lemma raises_payInclusion (credit : Credit) : Raises w 0 (payInclusion credit) := by
  unfold payInclusion
  split
  · exact .get_bind fun _ _ => .bind_zero (.lift _) fun _ =>
      .bind_zero (raises_creditProposer _ _) fun _ => raises_addManualReward _ _
  · exact .pure _

lemma raises_prepare : Raises w (4 * w.size) prepare := by
  refine .get_bind fun b _ => ?_
  split
  · have hmax : Raises w 0 processMaxRewards :=
      .get_bind fun _ _ => .forM fun _ => .get_bind fun _ _ => .bind_zero (.lift _) fun _ =>
        .bind_zero (.lift _) fun _ => raises_addAttesterReward _ _
    have hdelays : Raises w (2 * w.size + 0) processInclusionDelays :=
      raises_processAttestations.bind fun _ => .forM raises_payInclusion
    refine .bind_zero (raises_processSlashings _) fun _ => .bind_zero raises_indexOpportunities
      fun _ => (hdelays.bind fun _ => hmax).mono ?_
    omega
  · exact (Raises.pure _).mono (Nat.zero_le _)

end Phase0

/-! ### Passes since Altair -/

namespace Altair

lemma raises_processSyncAggregates : Raises w 0 processSyncAggregates := by
  refine .get_bind fun _ _ => .bind_zero (.fault _) fun _ => .bind_zero (.fault _) fun _ =>
    .forM fun block => ?_
  unfold paySyncAggregate
  split
  · exact .pure _
  · exact .bind_zero (.fault _) fun _ => raises_payProposer _ _

lemma raises_processSyncCommittee : Raises w 0 processSyncCommittee := by
  refine .get_bind fun _ _ => ?_
  split
  · exact .pure _
  · exact .bind_zero (.fault _) fun _ => .bind_zero (.fault _) fun _ => .forM fun _ =>
      .get_bind fun _ _ => .bind_zero (.lift _) fun _ => raises_creditSync _ _

lemma raises_includeVote (block : Block) (epoch : Epoch) (flags : Flags) (acc : Earned × Nat)
    (v : ValidatorIndex) : Raises w 2 (includeVote block epoch flags acc v) := by
  refine .get_bind fun b _ => .bind_zero (.lift _) fun _ =>
    .bind (k := 1) (l := 1) (raises_countVote _) fun _ => ?_
  split
  · exact .bind (raises_countNewVote _) fun _ => .pure _
  · exact (Raises.pure _).mono (Nat.zero_le 1)

lemma raises_includeAttestation (block : Block) (earned : Earned) (a : Attestation) :
    Raises w (2 * a.size) (includeAttestation block earned a) := by
  have hskip : Raises w (2 * a.size) (pure earned) := (Raises.pure _).mono (Nat.zero_le _)
  refine .get_bind fun b _ => ?_
  dsimp only
  split
  · exact hskip
  · split
    · refine .lift_bind fun _ _ => .lift_bind fun _ _ => .lift_bind fun members hmembers => ?_
      refine ((Raises.foldlM (raises_includeVote block _ _) members _).bind fun _ =>
        (raises_payProposer _ _).bind fun _ => .pure _).mono ?_
      rw [sum_map_two, Duties.length_attesters hmembers]
      unfold Attestation.size
      omega
    · exact hskip

lemma raises_includeBlock (earned : Earned) (block : Block) :
    Raises w (2 * block.size) (includeBlock earned block) := by
  rw [Block.size, ← List.sum_map_mul_left]
  exact .foldlM (raises_includeAttestation block) _ earned

lemma raises_processIncludedVotes : Raises w (2 * w.size) processIncludedVotes := by
  refine .get_bind fun b hb => ?_
  rw [hb]
  have hsub : w.next.proposedBlocks.Subperm w.blocks := by
    refine (List.filter_sublist.trans ?_).subperm
    simp [Window.blocks, Window.snapshots]
  exact ((Raises.foldlM raises_includeBlock _ _).bind fun _ => .pure _).mono (sum_size_le hsub)

lemma raises_processMaxRewards : Raises w 0 processMaxRewards :=
  .get_bind fun _ _ => .bind_zero (.fault _) fun _ => .forM fun _ => .get_bind fun _ _ =>
    .bind_zero (.lift _) fun _ => .bind_zero (.lift _) fun _ => .bind_zero (.fault _) fun _ =>
      .bind_zero (.lift _) fun _ => raises_addAttesterReward _ _

lemma raises_prepare : Raises w (4 * w.size) prepare := by
  refine .get_bind fun b _ => ?_
  split
  · refine .bind_zero (raises_processSlashings _) fun _ =>
      .bind_zero raises_processSyncAggregates fun _ => .bind_zero raises_indexOpportunities fun _ =>
        (raises_processAttestations.bind fun _ => raises_processIncludedVotes.bind fun _ =>
          raises_processMaxRewards.bind fun _ => raises_processSyncCommittee).mono ?_
    omega
  · exact (Raises.pure _).mono (Nat.zero_le _)

end Altair

end EpochRewards
