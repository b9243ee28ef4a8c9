import EpochRewards.Proofs.FirstOccurrence
import EpochRewards.Proofs.Inclusion
import EpochRewards.Proofs.Payments
import EpochRewards.Reward.Altair

/-!
What the votes included in the last epoch of a window earn their proposers.

Every flag that a vote earns is a merit. The pass pays for the first occurrence of each merit
and forgets, at its end, which ones it paid for.
-/

namespace EpochRewards.Altair

open EpochRewards.Bundle

/-- A flag that the vote of a validator for an epoch earns. -/
structure Merit where
  epoch : Epoch
  validator : ValidatorIndex
  flag : Flag
  deriving DecidableEq

/-! ### Flags earned so far -/

lemma Earned.get_set (e : Earned) (epoch epoch' : Epoch) (v v' : ValidatorIndex) (f : Flags) :
    (e.set epoch v f).get epoch' v' = if epoch' = epoch ∧ v' = v then f else e.get epoch' v' := by
  unfold Earned.get Earned.set
  rw [Ledger.get?_insert]
  by_cases he : epoch' = epoch
  · subst he
    by_cases hv : v' = v
    · simp [hv]
    · cases h : e.get? epoch' <;> simp [hv]
  · simp [he]

/-- The flags noted as earned are those of the merits `paid`. -/
def Noted (e : Earned) (paid : List Merit) : Prop :=
  ∀ t v f, (e.get t v).has f = true ↔ ⟨t, v, f⟩ ∈ paid

lemma noted_empty : Noted .empty [] := by
  intro t v f
  have h : (Earned.get .empty t v).has f = Flags.none.has f := rfl
  rw [h]
  cases f <;> simp [Flags.has, Flags.none]

lemma has_set (f g : Flag) (flags : Flags) : (flags.set f).has g = (decide (g = f) || flags.has g) := by
  cases f <;> cases g <;> rfl

lemma has_foldl_set (fs : List Flag) (flags : Flags) (g : Flag) :
    (fs.foldl Flags.set flags).has g = (decide (g ∈ fs) || flags.has g) := by
  induction fs generalizing flags with
  | nil => simp
  | cons f fs ih =>
    rw [List.foldl_cons, ih, has_set]
    by_cases hg : g = f
    · simp [hg]
    · simp [hg]

/-- The merits of one vote. -/
def voteMerits (epoch : Epoch) (flags : Flags) (v : ValidatorIndex) : List Merit :=
  (Flag.all.filter flags.has).map (⟨epoch, v, ·⟩)

lemma mem_voteMerits {epoch : Epoch} {flags : Flags} {v : ValidatorIndex} {m : Merit} :
    m ∈ voteMerits epoch flags v ↔ m.epoch = epoch ∧ m.validator = v ∧ flags.has m.flag = true := by
  obtain ⟨t, w, f⟩ := m
  have hall : f ∈ Flag.all := by cases f <;> simp [Flag.all]
  simp only [voteMerits, List.mem_map, List.mem_filter, Merit.mk.injEq]
  constructor
  · rintro ⟨g, ⟨-, hg⟩, rfl, rfl, rfl⟩
    exact ⟨rfl, rfl, hg⟩
  · rintro ⟨rfl, rfl, hf⟩
    exact ⟨f, ⟨hall, hf⟩, rfl, rfl, rfl⟩

lemma nodup_voteMerits (epoch : Epoch) (flags : Flags) (v : ValidatorIndex) :
    (voteMerits epoch flags v).Nodup := by
  have hall : Flag.all.Nodup := by decide
  exact List.pairwise_map.2 ((hall.filter _).imp fun hne h => hne (Merit.mk.inj h).2.2)

lemma newFlags_merits {e : Earned} {paid : List Merit} (h : Noted e paid) (epoch : Epoch)
    (flags : Flags) (v : ValidatorIndex) :
    (newFlags (e.get epoch v) flags).map (⟨epoch, v, ·⟩)
      = (voteMerits epoch flags v).filter (· ∉ paid) := by
  rw [voteMerits, List.filter_map, List.filter_filter, newFlags]
  congr 2
  funext f
  have hf := h epoch v f
  cases hs : (e.get epoch v).has f with
  | true =>
    have hm : (⟨epoch, v, f⟩ : Merit) ∈ paid := hf.1 hs
    simp [hm]
  | false =>
    have hm : (⟨epoch, v, f⟩ : Merit) ∉ paid := fun hm => by simp [hf.2 hm] at hs
    simp [hm]

lemma noted_set {e : Earned} {paid : List Merit} (h : Noted e paid) (epoch : Epoch)
    (flags : Flags) (v : ValidatorIndex) :
    Noted (e.set epoch v ((newFlags (e.get epoch v) flags).foldl Flags.set (e.get epoch v)))
      (paid ++ voteMerits epoch flags v) := by
  intro t w f
  have hall : f ∈ Flag.all := by cases f <;> simp [Flag.all]
  rw [Earned.get_set, List.mem_append, mem_voteMerits, ← h t w f]
  split
  · next heq =>
    obtain ⟨rfl, rfl⟩ := heq
    rw [has_foldl_set]
    cases he : (e.get t w).has f <;> simp [newFlags, hall, he]
  · next hne =>
    constructor
    · exact .inl
    · rintro (hf | ⟨ht, hw, -⟩)
      · exact hf
      · exact absurd ⟨ht, hw⟩ hne

/-! ### Amounts -/

/-- The base reward of a validator, as far as there is one. -/
def baseRewardOf (b : Bundle) (v : ValidatorIndex) : Gwei :=
  (baseReward b v b.nextActiveBalance).toOption.getD 0

/-- What a merit adds to the numerator of its proposer's reward. -/
def Merit.worth (b : Bundle) (m : Merit) : Nat := baseRewardOf b m.validator * m.flag.weight

def numerator (b : Bundle) (ms : List Merit) : Nat := (ms.map (Merit.worth b)).sum

/-- The validator of a merit has a base reward. -/
def Merit.Valued (b : Bundle) (m : Merit) : Prop :=
  ∃ base, baseReward b m.validator b.nextActiveBalance = .ok base

variable {b c c' : Bundle} {ps : List Payment} {paid : List Merit} {earned earned' : Earned}

lemma baseReward_of_pays (h : Pays b ps c) (v : ValidatorIndex) :
    baseReward c v c.nextActiveBalance = baseReward b v b.nextActiveBalance := by
  rw [h.frame]
  rfl

lemma addFlagWeights_ok {fs : List Flag} {v : ValidatorIndex} {n n' : Nat} (epoch : Epoch)
    (hc : Pays b ps c) (h : fs.foldlM (addFlagWeight c v) n = .ok n') :
    n' = n + numerator b (fs.map (⟨epoch, v, ·⟩)) ∧
      ∀ m ∈ fs.map (⟨epoch, v, ·⟩), Merit.Valued b m := by
  induction fs generalizing n with
  | nil =>
    rw [List.foldlM_nil, Calc.pure_ok] at h
    subst h
    exact ⟨rfl, fun m hm => by simp at hm⟩
  | cons f fs ih =>
    simp only [List.foldlM_cons, Calc.bind_ok, addFlagWeight, Calc.fault_ok, Word.mul_ok,
      Word.add_ok, baseReward_of_pays hc] at h
    obtain ⟨_, ⟨base, hbase, _, ⟨-, rfl⟩, -, rfl⟩, h⟩ := h
    obtain ⟨rfl, hv⟩ := ih h
    have hof : baseRewardOf b v = base := by
      rw [baseRewardOf, hbase]
      rfl
    refine ⟨?_, fun m hm => ?_⟩
    · rw [List.map_cons, numerator, numerator, List.map_cons, List.sum_cons, Merit.worth, hof,
        Nat.add_assoc]
    · rw [List.map_cons] at hm
      rcases List.mem_cons.1 hm with rfl | hm
      · exact ⟨base, hbase⟩
      · exact hv m hm

/-! ### One vote -/

lemma includeVote_ok {block : Block} {epoch : Epoch} {flags : Flags} {v : ValidatorIndex}
    {n n' : Nat} (hn : Noted earned paid) (hc : Pays b ps c)
    (h : includeVote block epoch flags (earned, n) v c = .ok (earned', n') c') :
    Noted earned' (paid ++ voteMerits epoch flags v) ∧ Pays b ps c' ∧
      n' = n + numerator b ((voteMerits epoch flags v).filter (· ∉ paid)) ∧
      ∀ m ∈ (voteMerits epoch flags v).filter (· ∉ paid), Merit.Valued b m := by
  simp only [includeVote, Pass.bind_ok, Pass.get_ok, Pass.lift_ok] at h
  obtain ⟨_, _, ⟨rfl, rfl⟩, _, _, ⟨hw, rfl⟩, _, d, hd, h⟩ := h
  have hcount := hc.trans (countVote_pays hd)
  obtain ⟨hw, hv⟩ := addFlagWeights_ok epoch hc hw
  rw [newFlags_merits hn] at hw hv
  rw [List.append_nil] at hcount
  have hset := noted_set hn epoch flags v
  split at h
  · simp only [Pass.bind_ok, Pass.pure_ok, Prod.mk.injEq] at h
    obtain ⟨_, e, he, ⟨rfl, rfl⟩, rfl⟩ := h
    have hnew := hcount.trans (countNewVote_pays he)
    rw [List.append_nil] at hnew
    exact ⟨hset, hnew, hw, hv⟩
  · simp only [Pass.pure_ok, Prod.mk.injEq] at h
    obtain ⟨⟨rfl, rfl⟩, rfl⟩ := h
    exact ⟨hset, hcount, hw, hv⟩

/-- The merits of `ms` that are new after the ones in `paid`. -/
def unpaid (paid ms : List Merit) : List Merit := (firsts id ms).filter (· ∉ paid)

lemma unpaid_append (paid ms ns : List Merit) :
    unpaid paid (ms ++ ns) = unpaid paid ms ++ unpaid (paid ++ ms) ns := by
  rw [unpaid, firsts_append, List.filter_append, List.filter_filter, unpaid, unpaid]
  congr 2
  funext m
  simp [not_or]

lemma numerator_append (b : Bundle) (ms ns : List Merit) :
    numerator b (ms ++ ns) = numerator b ms + numerator b ns := by
  rw [numerator, List.map_append, List.sum_append]
  rfl

lemma includeVotes_ok {block : Block} {epoch : Epoch} {flags : Flags} {vs : List ValidatorIndex}
    {n n' : Nat} (hn : Noted earned paid) (hc : Pays b ps c)
    (h : vs.foldlM (includeVote block epoch flags) (earned, n) c = .ok (earned', n') c') :
    Noted earned' (paid ++ vs.flatMap (voteMerits epoch flags)) ∧ Pays b ps c' ∧
      n' = n + numerator b (unpaid paid (vs.flatMap (voteMerits epoch flags))) ∧
      ∀ m ∈ unpaid paid (vs.flatMap (voteMerits epoch flags)), Merit.Valued b m := by
  induction vs generalizing earned n c paid with
  | nil =>
    rw [Pass.foldlM_nil_ok, Prod.mk.injEq] at h
    obtain ⟨⟨rfl, rfl⟩, rfl⟩ := h
    rw [List.flatMap_nil, List.append_nil]
    exact ⟨hn, hc, rfl, fun m hm => by simp [unpaid, firsts] at hm⟩
  | cons v vs ih =>
    rw [Pass.foldlM_cons_ok] at h
    obtain ⟨⟨earned₁, n₁⟩, d, hv, h⟩ := h
    obtain ⟨hn₁, hc₁, rfl, hw₁⟩ := includeVote_ok hn hc hv
    obtain ⟨hn₂, hc₂, rfl, hw₂⟩ := ih hn₁ hc₁ h
    have hself : unpaid paid (voteMerits epoch flags v)
        = (voteMerits epoch flags v).filter (· ∉ paid) := by
      rw [unpaid, firsts_eq_self (by rw [List.map_id]; exact nodup_voteMerits epoch flags v)]
    rw [List.flatMap_cons, unpaid_append, hself, numerator_append, ← Nat.add_assoc,
      ← List.append_assoc]
    refine ⟨hn₂, hc₂, rfl, fun m hm => ?_⟩
    rcases List.mem_append.1 hm with hm | hm
    · exact hw₁ m hm
    · exact hw₂ m hm

/-! ### Aggregates and blocks -/

/-- Whether a block's aggregate is for one of the last two epochs and older than the block. -/
def rewards (b : Bundle) (block : Block) (a : Attestation) : Bool :=
  (votedEpoch? b.window (b.network.epochOf a.data.slot)).isSome ∧ a.data.slot < block.slot

/-- The aggregates that proposers are paid for, by block and by their place in it. -/
def rewardedAggregates (b : Bundle) : List (Block × Attestation) :=
  b.window.next.proposedBlocks.flatMap fun block =>
    (block.attestations.filter (rewards b block)).map (block, ·)

def dutiesOf (b : Bundle) (epoch : Epoch) : Duties :=
  ((votedEpoch? b.window epoch).map (·.1)).getD .empty

def sourceOf (b : Bundle) (epoch : Epoch) : Checkpoint :=
  ((votedEpoch? b.window epoch).map (·.2)).getD ⟨0, .zero⟩

/-- The flags of a vote by the roots that the last snapshot keeps. -/
def flagsAt (b : Bundle) (block : Block) (data : VoteData) : Flags :=
  let epoch := b.network.epochOf data.slot
  b.voteFlags data (block.slot - data.slot)
    ⟨sourceOf b epoch, ⟨epoch, keptRoot (b.window.next.blockRootOf b.network epoch)⟩⟩
    (keptRoot (b.window.next.blockRootAt b.network data.slot))

def meritsOf (b : Bundle) (x : Block × Attestation) : List Merit :=
  let epoch := b.network.epochOf x.2.data.slot
  ((dutiesOf b epoch).voters x.2).flatMap (voteMerits epoch (flagsAt b x.1 x.2.data))

/-- The roots and the members that a rewarded aggregate names are all known. -/
structure Answered (b : Bundle) (x : Block × Attestation) : Prop where
  target : ∃ r, b.window.next.blockRootOf b.network (b.network.epochOf x.2.data.slot) = .ok r
  head : ∃ r, b.window.next.blockRootAt b.network x.2.data.slot = .ok r
  members : (dutiesOf b (b.network.epochOf x.2.data.slot)).attesters x.2
    = .ok ((dutiesOf b (b.network.epochOf x.2.data.slot)).voters x.2)

/-- The merits that an aggregate is paid for. -/
structure Payout where
  block : Block
  merits : List Merit

def Payout.payment (b : Bundle) (p : Payout) : Payment :=
  ⟨p.block, numerator b p.merits / proposerDenominator⟩

/-- One payout for each aggregate, after the merits `paid`. -/
def payouts (b : Bundle) (paid : List Merit) : List (Block × Attestation) → List Payout
  | [] => []
  | x :: xs => ⟨x.1, unpaid paid (meritsOf b x)⟩ :: payouts b (paid ++ meritsOf b x) xs

lemma payouts_append (b : Bundle) (paid : List Merit) (xs ys : List (Block × Attestation)) :
    payouts b paid (xs ++ ys)
      = payouts b paid xs ++ payouts b (paid ++ xs.flatMap (meritsOf b)) ys := by
  induction xs generalizing paid with
  | nil => simp [payouts]
  | cons x xs ih =>
    rw [List.cons_append, payouts, payouts, ih, List.flatMap_cons, List.append_assoc]
    rfl

/-- No merit is paid for twice. -/
lemma merits_payouts (b : Bundle) (paid : List Merit) (xs : List (Block × Attestation)) :
    (payouts b paid xs).flatMap (·.merits) = unpaid paid (xs.flatMap (meritsOf b)) := by
  induction xs generalizing paid with
  | nil => rfl
  | cons x xs ih => rw [payouts, List.flatMap_cons, List.flatMap_cons, ih, unpaid_append]

/-- The pass `m` pays for the aggregates `xs`. -/
def PaysFor (b : Bundle) (m : Earned → Pass Earned) (xs : List (Block × Attestation)) : Prop :=
  ∀ ⦃paid : List Merit⦄ ⦃ps : List Payment⦄ ⦃earned earned' : Earned⦄ ⦃c c' : Bundle⦄,
    Noted earned paid → Pays b ps c → m earned c = .ok earned' c' →
      (∀ x ∈ xs, Answered b x) ∧ (∀ p ∈ payouts b paid xs, ∀ m ∈ p.merits, m.Valued b) ∧
        Noted earned' (paid ++ xs.flatMap (meritsOf b)) ∧
          Pays b (ps ++ (payouts b paid xs).map (Payout.payment b)) c'

lemma paysFor_foldlM {α : Type} {m : Earned → α → Pass Earned}
    {agg : α → List (Block × Attestation)} {as : List α}
    (h : ∀ a ∈ as, PaysFor b (fun e => m e a) (agg a)) :
    PaysFor b (fun e => as.foldlM m e) (as.flatMap agg) := by
  intro paid ps earned earned' c c' hn hc hm
  induction as generalizing paid ps earned c with
  | nil =>
    rw [Pass.foldlM_nil_ok] at hm
    obtain ⟨rfl, rfl⟩ := hm
    simpa [payouts] using ⟨hn, hc⟩
  | cons a as ih =>
    rw [Pass.foldlM_cons_ok] at hm
    obtain ⟨e, d, ha, hm⟩ := hm
    obtain ⟨hr₁, hv₁, hn₁, hc₁⟩ := h a List.mem_cons_self hn hc ha
    obtain ⟨hr₂, hv₂, hn₂, hc₂⟩ := ih (fun x hx => h x (List.mem_cons_of_mem _ hx)) hn₁ hc₁ hm
    rw [List.flatMap_cons, payouts_append, List.map_append, List.flatMap_append,
      ← List.append_assoc, ← List.append_assoc]
    refine ⟨fun x hx => ?_, fun p hp => ?_, hn₂, hc₂⟩
    · rcases List.mem_append.1 hx with hx | hx
      · exact hr₁ x hx
      · exact hr₂ x hx
    · rcases List.mem_append.1 hp with hp | hp
      · exact hv₁ p hp
      · exact hv₂ p hp

lemma includeAttestation_paysFor (block : Block) (a : Attestation) :
    PaysFor b (fun e => includeAttestation block e a)
      (([a].filter (rewards b block)).map (block, ·)) := by
  intro paid ps earned earned' c c' hn hc h
  have hnet : c.network = b.network := by rw [hc.frame]
  have hphase : c.phase = b.phase := by rw [hc.frame]
  have hwin : c.window = b.window := by rw [hc.frame]
  have skip (hcount : ¬ rewards b block a = true) (he : earned = earned' ∧ c = c') :
      (∀ x ∈ ([a].filter (rewards b block)).map (block, ·), Answered b x) ∧
        (∀ p ∈ payouts b paid (([a].filter (rewards b block)).map (block, ·)),
          ∀ m ∈ p.merits, m.Valued b) ∧
        Noted earned' (paid ++ (([a].filter (rewards b block)).map (block, ·)).flatMap (meritsOf b)) ∧
        Pays b (ps ++ (payouts b paid (([a].filter (rewards b block)).map (block, ·))).map
          (Payout.payment b)) c' := by
    rw [List.filter_cons_of_neg hcount, List.filter_nil, ← he.1, ← he.2]
    simpa [payouts] using ⟨hn, hc⟩
  simp only [includeAttestation, Pass.bind_ok, Pass.get_ok] at h
  obtain ⟨_, _, ⟨rfl, rfl⟩, h⟩ := h
  rw [hwin, hnet] at h
  cases hvoted : votedEpoch? b.window (b.network.epochOf a.data.slot) with
  | none =>
    simp only [hvoted, Pass.pure_ok] at h
    exact skip (by simp [rewards, hvoted]) h
  | some voted =>
    obtain ⟨duties, source⟩ := voted
    simp only [hvoted] at h
    split at h
    · next hold =>
      have hcount : rewards b block a = true := by simp [rewards, hvoted, hold]
      have hduties : dutiesOf b (b.network.epochOf a.data.slot) = duties := by
        simp [dutiesOf, hvoted]
      have hsource : sourceOf b (b.network.epochOf a.data.slot) = source := by
        simp [sourceOf, hvoted]
      simp only [Pass.bind_ok, Pass.lift_ok, Pass.pure_ok] at h
      obtain ⟨root, _, ⟨hroot, rfl⟩, head, _, ⟨hhead, rfl⟩, members, _, ⟨hmembers, rfl⟩,
        ⟨earned₁, n⟩, d, hvotes, _, e, hpay, rfl, rfl⟩ := h
      have hflags : c.voteFlags a.data (block.slot - a.data.slot)
          ⟨source, ⟨b.network.epochOf a.data.slot, root⟩⟩ head = flagsAt b block a.data := by
        rw [flagsAt, keptRoot_ok hroot, keptRoot_ok hhead, hsource, voteFlags_congr hnet hphase]
      rw [hflags, attesters_ok hmembers, ← hduties] at hvotes
      obtain ⟨hn', hc', hnum, hv⟩ := includeVotes_ok hn hc hvotes
      rw [Nat.zero_add] at hnum
      rw [List.filter_cons_of_pos hcount, List.filter_nil, List.map_cons, List.map_nil,
        List.flatMap_cons, List.flatMap_nil, List.append_nil]
      refine ⟨fun x hx => ?_, fun p hp => ?_, hn', ?_⟩
      · rw [List.mem_singleton.1 hx]
        refine ⟨⟨root, hroot⟩, ⟨head, hhead⟩, ?_⟩
        rw [hduties, hmembers, attesters_ok hmembers]
      · rw [List.mem_singleton.1 hp]
        exact hv
      · have hpaid := hc'.trans (payProposer_pays hpay)
        rw [hnum] at hpaid
        exact hpaid
    · next hold =>
      rw [Pass.pure_ok] at h
      exact skip (by simp [rewards, hold]) h

lemma includeBlock_paysFor (block : Block) :
    PaysFor b (fun e => includeBlock e block)
      ((block.attestations.filter (rewards b block)).map (block, ·)) := by
  rw [map_filter_eq_flatMap]
  exact paysFor_foldlM fun a _ => includeAttestation_paysFor block a

/-! ### The whole pass -/

/-- The merits that a pass pays for, one after another. -/
def paidMerits (b : Bundle) : List Merit :=
  (payouts b [] (rewardedAggregates b)).flatMap (·.merits)

lemma paidMerits_eq (b : Bundle) :
    paidMerits b = firsts id ((rewardedAggregates b).flatMap (meritsOf b)) := by
  rw [paidMerits, merits_payouts, unpaid, List.filter_eq_self.2]
  simp

lemma nodup_paidMerits (b : Bundle) : (paidMerits b).Nodup := by
  have h : ((firsts id ((rewardedAggregates b).flatMap (meritsOf b))).map id).Nodup :=
    nodup_keys_firsts _
  rwa [List.map_id, ← paidMerits_eq] at h

lemma mem_paidMerits {m : Merit} :
    m ∈ paidMerits b ↔ ∃ x ∈ rewardedAggregates b, m ∈ meritsOf b x := by
  have h : m ∈ (firsts id ((rewardedAggregates b).flatMap (meritsOf b))).map id ↔ _ :=
    mem_keys_firsts
  rw [List.map_id, List.map_id] at h
  rw [paidMerits_eq, h, List.mem_flatMap]

lemma processIncludedVotes_ok {u : Unit} (h : processIncludedVotes b = .ok u c) :
    (∀ x ∈ rewardedAggregates b, Answered b x) ∧ (∀ m ∈ paidMerits b, m.Valued b) ∧
      Pays b ((payouts b [] (rewardedAggregates b)).map (Payout.payment b)) c := by
  simp only [processIncludedVotes, Pass.bind_ok, Pass.get_ok, Pass.pure_ok] at h
  obtain ⟨_, _, ⟨rfl, rfl⟩, e, d, h, -, rfl⟩ := h
  obtain ⟨ha, hv, -, hc⟩ :=
    paysFor_foldlM (fun block _ => includeBlock_paysFor block) noted_empty (pays_nil b) h
  refine ⟨ha, fun m hm => ?_, hc⟩
  obtain ⟨p, hp, hm⟩ := List.mem_flatMap.1 hm
  exact hv p hp m hm

end EpochRewards.Altair
