import EpochRewards.Proofs.Inclusion
import EpochRewards.Proofs.Ledgers
import Mathlib

/-!
The pass over the votes for the first epoch, from a fresh bundle to its credits.
-/

namespace EpochRewards

/-! ### Sorting by a key -/

section Sorting

variable {α : Type} (key : α → Nat) (l : List α)

private lemma le_trans_key (x y z : α) (hxy : decide (key x ≤ key y) = true)
    (hyz : decide (key y ≤ key z) = true) : decide (key x ≤ key z) = true := by
  simp only [decide_eq_true_eq] at hxy hyz ⊢
  omega

private lemma le_total_key (x y : α) :
    (decide (key x ≤ key y) || decide (key y ≤ key x)) = true := by
  simp only [Bool.or_eq_true, decide_eq_true_eq]
  omega

lemma pairwise_sortByKey :
    (l.mergeSort fun x y => key x ≤ key y).Pairwise fun x y => key x ≤ key y :=
  (List.pairwise_mergeSort (le_trans_key key) (le_total_key key) l).imp of_decide_eq_true

/-- Elements with one key stay in their order. -/
lemma filter_sortByKey (k : Nat) :
    (l.mergeSort fun x y => key x ≤ key y).filter (key · = k) = l.filter (key · = k) := by
  have hsame : (l.filter (key · = k)).Pairwise fun x y => decide (key x ≤ key y) = true := by
    refine List.pairwise_of_forall_mem_list fun x hx y hy => ?_
    have hx := of_decide_eq_true (List.mem_filter.1 hx).2
    have hy := of_decide_eq_true (List.mem_filter.1 hy).2
    rw [decide_eq_true_eq]
    omega
  have hsub := (List.sublist_mergeSort (le_trans_key key) (le_total_key key) hsame
    List.filter_sublist).filter (key · = k)
  simp only [List.filter_filter, Bool.and_self] at hsub
  have hperm := (List.mergeSort_perm l fun x y => key x ≤ key y).filter (key · = k)
  exact (hsub.eq_of_length hperm.length_eq.symm).symm

end Sorting

namespace Bundle

/-! ### Aggregates and blocks -/

/-- The pass `m` walks the aggregates `xs` and credits the first votes among theirs. -/
def Credits (b : Bundle) (m : Pass (List Credit)) (xs : List (Block × Attestation)) : Prop :=
  ∀ ⦃n : Nat⦄ ⦃is : List Inclusion⦄ ⦃c c' : Bundle⦄ ⦃cs : List Credit⦄,
    Walked b n is c → m c = .ok cs c' →
      (∀ x ∈ xs, b.Resolved x) ∧ Walked b (n + xs.length) (is ++ xs.flatMap b.votesOf) c' ∧
        b.credited (is ++ xs.flatMap b.votesOf) = b.credited is ++ cs

variable {b c c' : Bundle} {n : Nat} {is : List Inclusion}

lemma credits_mapM {α : Type} {m : α → Pass (List Credit)}
    {agg : α → List (Block × Attestation)} {as : List α}
    (h : ∀ a ∈ as, b.Credits (m a) (agg a)) :
    b.Credits (do return (← as.mapM m).flatten) (as.flatMap agg) := by
  intro n is c c' cs hw hm
  rw [Pass.bind_ok] at hm
  obtain ⟨css, _, hm, hr⟩ := hm
  rw [Pass.pure_ok] at hr
  obtain ⟨rfl, rfl⟩ := hr
  induction as generalizing n is c css with
  | nil =>
    rw [Pass.mapM_nil_ok] at hm
    obtain ⟨rfl, rfl⟩ := hm
    simpa using hw
  | cons a as ih =>
    rw [Pass.mapM_cons_ok] at hm
    obtain ⟨cs, d, rest, ha, hrest, rfl⟩ := hm
    obtain ⟨hr₁, hw₁, hc₁⟩ := h a List.mem_cons_self hw ha
    obtain ⟨hr₂, hw₂, hc₂⟩ := ih (fun x hx => h x (List.mem_cons_of_mem _ hx)) hw₁ rest hrest
    rw [List.flatMap_cons, List.flatMap_append, ← List.append_assoc, List.length_append,
      ← Nat.add_assoc, List.flatten_cons, ← List.append_assoc, ← hc₁]
    refine ⟨fun x hx => ?_, hw₂, hc₂⟩
    rcases List.mem_append.1 hx with hx | hx
    · exact hr₁ x hx
    · exact hr₂ x hx

/-- The votes of the members of one aggregate. -/
lemma creditVotes_ok (hb : b.Unvoted) {block : Block} {data : VoteData}
    {vs : List ValidatorIndex} {rs : List (Option Credit)} (hw : Walked b n is c)
    (h : vs.mapM (creditVote block (block.slot - data.slot) (b.flagsOf ⟨block, data, 0⟩)) c
      = .ok rs c') :
    Walked b n (is ++ vs.map (⟨block, data, ·⟩)) c' ∧
      b.credited (is ++ vs.map (⟨block, data, ·⟩)) = b.credited is ++ rs.filterMap id := by
  induction vs generalizing is c rs with
  | nil =>
    rw [Pass.mapM_nil_ok] at h
    obtain ⟨rfl, rfl⟩ := h
    simpa using hw
  | cons v vs ih =>
    rw [Pass.mapM_cons_ok] at h
    obtain ⟨r, d, rest, hv, hrest, rfl⟩ := h
    obtain ⟨hw₁, hc₁⟩ := walked_vote (i := ⟨block, data, v⟩) hb hw (creditVote_ok hv)
    obtain ⟨hw₂, hc₂⟩ := ih hw₁ hrest
    rw [List.append_assoc, List.singleton_append] at hw₂ hc₂
    refine ⟨hw₂, ?_⟩
    rw [List.map_cons, hc₂, hc₁, List.append_assoc]
    cases r with
    | none => rfl
    | some x => rfl

lemma creditAttestation_credits (hb : b.Unvoted) (block : Block) (a : Attestation) :
    b.Credits (creditAttestation b.canonical block a)
      (([a].filter (b.counts block)).map (block, ·)) := by
  intro n is c c' cs hw h
  have hnet : c.network = b.network := by rw [hw.frame]
  have hphase : c.phase = b.phase := by rw [hw.frame]
  have hwin : c.window = b.window := by rw [hw.frame]
  simp only [creditAttestation, Pass.bind_ok, Pass.get_ok] at h
  obtain ⟨_, _, ⟨rfl, rfl⟩, h⟩ := h
  split at h
  · next hc =>
    rw [hnet, hwin] at hc
    have hcount : b.counts block a = true := by simpa [counts] using hc
    simp only [Pass.bind_ok, Pass.lift_ok, Pass.modify_ok, Pass.pure_ok] at h
    obtain ⟨head, _, ⟨hhead, rfl⟩, members, _, ⟨hmembers, rfl⟩, _, d, rfl, rs, e, hrs, rfl, rfl⟩ := h
    rw [hnet, hwin] at hhead
    rw [hwin] at hmembers
    have hflags : c.voteFlags a.data (block.slot - a.data.slot) b.canonical head
        = b.flagsOf ⟨block, a.data, 0⟩ := by
      rw [flagsOf, keptRoot_ok hhead, voteFlags_congr hnet hphase]
      rfl
    have hstart : Walked b (n + 1) is { c with attestationCount := c.attestationCount + 1 } := by
      refine ⟨?_, hw.tally, hw.block, hw.balance, hw.listed, hw.registered⟩
      rw [hw.frame]
      rfl
    rw [hflags, attesters_ok hmembers] at hrs
    obtain ⟨hw', hcs⟩ := creditVotes_ok hb hstart hrs
    rw [List.filter_cons_of_pos hcount, List.filter_nil, List.map_cons, List.map_nil,
      List.flatMap_cons, List.flatMap_nil, List.append_nil]
    refine ⟨fun x hx => ?_, hw', hcs⟩
    rw [List.mem_singleton.1 hx]
    exact ⟨⟨head, hhead⟩, by rw [hmembers, attesters_ok hmembers]⟩
  · next hc =>
    rw [hnet, hwin] at hc
    have hcount : ¬ b.counts block a = true := by simpa [counts] using hc
    rw [Pass.pure_ok] at h
    obtain ⟨rfl, rfl⟩ := h
    rw [List.filter_cons_of_neg hcount, List.filter_nil]
    simpa using hw

lemma creditBlock_credits (hb : b.Unvoted) (block : Block) :
    b.Credits (creditBlock b.canonical block)
      ((block.attestations.filter (b.counts block)).map (block, ·)) := by
  rw [map_filter_eq_flatMap]
  exact credits_mapM fun a _ => creditAttestation_credits hb block a

/-! ### Fresh bundles -/

section Fresh

variable {net : Network} {phase : Phase} {preference : ReportPreference} {w : Window}

lemma fresh_ok (h : fresh net phase preference w = .ok b) :
    b.network = net ∧ b.phase = phase ∧ b.window = w ∧
      b.tallies = w.next.validators.map (fun _ => ValidatorTally.zero) ∧
      b.attestingBalance = .zero ∧ b.attestationCount = 0 ∧
      b.blockTallies = .ofList (w.blocks.map fun x => (x.slot, BlockTally.zero)) := by
  simp only [fresh, Calc.bind_ok, Calc.pure_ok] at h
  obtain ⟨_, _, _, _, rfl⟩ := h
  exact ⟨rfl, rfl, rfl, rfl, rfl, rfl, rfl⟩

lemma fresh_ledgers (h : fresh net phase preference w = .ok b) :
    b.maxProposerRewards = .empty ∧ b.maxSlashingRewards = .empty ∧ b.maxSyncRewards = .empty := by
  simp only [fresh, Calc.bind_ok, Calc.pure_ok] at h
  obtain ⟨_, _, _, _, rfl⟩ := h
  exact ⟨rfl, rfl, rfl⟩

lemma fresh_tallies (h : fresh net phase preference w = .ok b) : ∀ t ∈ b.tallies, t = .zero := by
  intro t ht
  obtain ⟨-, -, -, htallies, -⟩ := fresh_ok h
  rw [htallies] at ht
  obtain ⟨_, -, rfl⟩ := List.mem_map.1 ht
  rfl

lemma unvoted_fresh (h : fresh net phase preference w = .ok b) : b.Unvoted := by
  intro t ht
  rw [fresh_tallies h t ht]
  rfl

lemma blockTallies_fresh (h : fresh net phase preference w = .ok b) (s : Slot) :
    b.blockTallies.get? s = if s ∈ w.blocks.map (·.slot) then some .zero else none := by
  obtain ⟨-, -, -, -, -, -, hblocks⟩ := fresh_ok h
  rw [hblocks, ← Ledger.get?_ofList_const, List.map_map]
  rfl

end Fresh

/-! ### The whole pass -/

lemma mem_votingBlocks {w : Window} {block : Block} :
    block ∈ votingBlocks w ↔ block ∈ w.blocksBeforeNext ∧ block.proposed = true := by
  rw [votingBlocks, List.mem_mergeSort, List.mem_filter]

lemma votingBlocks_ordered (w : Window) : (votingBlocks w).Pairwise (·.slot ≤ ·.slot) :=
  pairwise_sortByKey Block.slot _

/-- The blocks of one slot are walked as they are listed. -/
lemma votingBlocks_of_slot (w : Window) (s : Slot) :
    (votingBlocks w).filter (·.slot = s) =
      w.blocksBeforeNext.filter fun x => x.proposed ∧ x.slot = s := by
  rw [votingBlocks, filter_sortByKey Block.slot, List.filter_filter]
  congr 1
  funext x
  rw [Bool.decide_and, Bool.decide_eq_true, Bool.and_comm]

lemma processAttestations_ok (hb : b.Unvoted) {cs : List Credit}
    (h : processAttestations b = .ok cs c) :
    (∃ r, b.window.current.blockRootOf b.network b.window.prev.epoch = .ok r) ∧
      (∀ x ∈ b.aggregates, b.Resolved x) ∧ Walked b b.aggregates.length b.inclusions c ∧
        cs = b.credited b.inclusions := by
  simp only [processAttestations, Pass.bind_ok, Pass.get_ok, Pass.lift_ok] at h
  obtain ⟨_, _, ⟨rfl, rfl⟩, root, _, ⟨hroot, rfl⟩, h⟩ := h
  have hcanonical : (⟨b.window.prev.currentJustified, ⟨b.window.prev.epoch, root⟩⟩ : Canonical)
      = b.canonical := by rw [canonical, keptRoot_ok hroot]
  rw [hcanonical, ← Pass.bind_ok] at h
  have hall : b.Credits (do return (← (votingBlocks b.window).mapM (creditBlock b.canonical)).flatten)
      b.aggregates := credits_mapM fun block _ => creditBlock_credits hb block
  obtain ⟨hr, hw, hc⟩ := hall (walked_start b) h
  rw [Nat.zero_add, List.nil_append] at hw
  exact ⟨⟨root, hroot⟩, hr, hw, hc.symm⟩

/-- The first vote of a validator for the first epoch settles its figures. -/
structure FirstVotesWin (b : Bundle) (credits : List Credit) (c : Bundle) : Prop where
  /-- blocks are walked by slot, those of one slot as they are listed -/
  order : (votingBlocks b.window).Pairwise (·.slot ≤ ·.slot) ∧ ∀ s,
    (votingBlocks b.window).filter (·.slot = s) =
      b.window.blocksBeforeNext.filter fun x => x.proposed ∧ x.slot = s
  /-- every root and validator that the votes refer to is known -/
  target : ∃ r, b.window.current.blockRootOf b.network b.window.prev.epoch = .ok r
  resolved : ∀ x ∈ b.aggregates, b.Resolved x
  registered : ∀ i ∈ b.inclusions, (b.window.current.validator? i.validator).isSome
  tallies : ∀ v, c.tallies[v]? = (b.window.next.validators[v]?).map fun _ =>
    let first? := b.inclusions.find? (·.validator = v)
    ⟨0, first?.map (·.delay), (first?.map b.flagsOf).getD .none⟩
  first : credits = (firsts Inclusion.validator b.inclusions).map b.creditOf
  blocks : ∀ s, c.blockTallies.get? s = if s ∈ b.window.blocks.map (·.slot) then
      some ⟨0, b.inclusions.countP (·.block.slot = s),
        (firsts Inclusion.validator b.inclusions).countP (·.block.slot = s)⟩
    else none
  newVotes : (c.blockTallies.values.map (·.newVotesIncluded)).sum = credits.length
  balance : ∀ f, c.attestingBalance.get f =
    (((firsts Inclusion.validator b.inclusions).filter fun i => (b.flagsOf i).has f).map
      fun i => b.window.current.effectiveBalanceOf i.validator).sum
  frame : c = { b with
    tallies := c.tallies
    attestingBalance := c.attestingBalance
    attestationCount := b.aggregates.length
    blockTallies := c.blockTallies }

/-- The figures are those of the first votes, in whatever order the snapshots list blocks. -/
theorem processAttestations_firstVotesWin {net : Network} {phase : Phase}
    {preference : ReportPreference} {w : Window} {b c : Bundle} {credits : List Credit}
    (hb : fresh net phase preference w = .ok b) (h : processAttestations b = .ok credits c) :
    FirstVotesWin b credits c := by
  obtain ⟨-, -, hwin, htallies, hbalance, hcount, -⟩ := fresh_ok hb
  obtain ⟨htarget, hresolved, hw, rfl⟩ := processAttestations_ok (unvoted_fresh hb) h
  have hblocks (s : Slot) := blockTallies_fresh hb s
  have hnew (s : Slot) (t : BlockTally) (ht : c.blockTallies.get? s = some t) :
      t.newVotesIncluded = (firsts Inclusion.validator b.inclusions).countP (·.block.slot = s) := by
    rw [hw.block, hblocks] at ht
    split at ht
    · rw [← Option.some.inj ht]
      simp [recount, BlockTally.zero]
    · cases ht
  have hlisted : ∀ i ∈ firsts Inclusion.validator b.inclusions,
      i.block.slot ∈ c.blockTallies.keys := by
    intro i hi
    rw [Ledger.mem_keys_iff, hw.block, Option.isSome_map]
    exact hw.listed i (mem_of_mem_firsts hi)
  refine ⟨⟨votingBlocks_ordered _, votingBlocks_of_slot _⟩, htarget, hresolved, hw.registered,
    fun v => ?_, rfl, fun s => ?_, ?_, fun f => ?_, ?_⟩
  · rw [hw.tally, htallies, List.getElem?_map, hwin, Option.map_map]
    congr 1
    funext x
    show settle b b.inclusions v .zero = _
    unfold settle
    cases b.inclusions.find? (·.validator = v) with
    | some i => rfl
    | none => rfl
  · rw [hw.block, hblocks, hwin]
    split
    · simp [recount, BlockTally.zero]
    · rfl
  · rw [Ledger.map_values hnew, sum_countP_key (Ledger.nodup_keys _) _ hlisted, credited,
      List.length_map]
  · rw [hw.balance, hbalance]
    cases f <;> exact Nat.zero_add _
  · have hframe := hw.frame
    rwa [hcount, Nat.zero_add] at hframe

/-! ### A late aggregate -/

/-- Two validators vote in the last slot of an epoch. The block listed first includes both votes,
one slot after the other block included the second one. -/
def lateWindow : Window :=
  let vote : VoteData := ⟨3, 0, .zero, ⟨0, .zero⟩, ⟨0, .zero⟩⟩
  let block (slot : Slot) (bits : List Bool) : Block :=
    ⟨slot, 0, true, [⟨.ofBits bits, vote⟩], none, [], [], [], none⟩
  let validator : Validator := ⟨.zero, 32, false, 0, 0, farFuture, farFuture⟩
  let snapshot (epoch : Epoch) (blocks : List Block) : Snapshot :=
    { Snapshot.placeholder epoch (4 * epoch + 3) with
      validators := [validator, validator]
      balances := [32, 32]
      blockRoots := List.replicate 16 .zero
      blocks
      duties := ⟨[⟨3, 0, [0, 1]⟩], []⟩ }
  ⟨snapshot 0 [], snapshot 1 [block 6 [true, true], block 5 [false, true]], snapshot 2 []⟩

def lateBundle : Bundle where
  network := .fourSlots
  phase := .altair
  preference := .strictlyPositive
  window := lateWindow
  currentActiveBalance := 64
  nextActiveBalance := 64
  tallies := [.zero, .zero]
  maxProposerRewards := .empty
  maxSlashingRewards := .empty
  maxSyncRewards := .empty
  attestingBalance := .zero
  attestationCount := 0
  blockTallies := .ofList [(6, .zero), (5, .zero)]
  opportunities := .empty

def lateCredits : List Credit :=
  [⟨1, 5, 0, 2, ⟨true, true, false⟩⟩, ⟨0, 6, 0, 3, ⟨false, false, false⟩⟩]

lemma lateBundle_credits : ∃ c, processAttestations lateBundle = .ok lateCredits c := by
  have hcredits : (match processAttestations lateBundle with
      | .ok credits _ => credits
      | .error _ _ => []) = lateCredits := by cbv
  cases hrun : processAttestations lateBundle with
  | ok credits c =>
    rw [hrun] at hcredits
    subst hcredits
    exact ⟨c, rfl⟩
  | error e c =>
    rw [hrun] at hcredits
    cases hcredits

/-- The second vote is credited with the earlier block, once. -/
theorem lateWindow_firstVotesWin :
    fresh .fourSlots .altair .strictlyPositive lateWindow = .ok lateBundle ∧
      ∃ c, processAttestations lateBundle = .ok lateCredits c ∧
        FirstVotesWin lateBundle lateCredits c := by
  have hfresh : fresh .fourSlots .altair .strictlyPositive lateWindow = .ok lateBundle := rfl
  obtain ⟨c, hrun⟩ := lateBundle_credits
  exact ⟨hfresh, c, hrun, processAttestations_firstVotesWin hfresh hrun⟩

end Bundle

end EpochRewards
