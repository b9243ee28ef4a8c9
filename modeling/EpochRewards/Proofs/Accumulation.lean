import EpochRewards.Proofs.FirstInclusions
import EpochRewards.Proofs.Merits

/-!
Flags by accumulation.

The protocol sets further flags of a validator with each inclusion of its vote, as does the pass
over the votes in the last epoch of a window. The pass over the votes for the first epoch takes
the flags of the first inclusion. For a validator with one vote this comes to the same: blocks are
walked by slot, and a flag that an inclusion misses is missed by all later ones.
-/

namespace EpochRewards

namespace Flags

/-- The flags that any of these have. -/
def union (fs : List Flags) : Flags := ⟨fs.any (·.source), fs.any (·.target), fs.any (·.head)⟩

/-- Sets the flags that are new, as votes in the last epoch do. -/
def accumulate (earned flags : Flags) : Flags :=
  (Altair.newFlags earned flags).foldl Flags.set earned

lemma ext_has {f g : Flags} (h : ∀ flag, f.has flag = g.has flag) : f = g := by
  obtain ⟨source, target, head⟩ := f
  have hsource : source = g.source := h .source
  have htarget : target = g.target := h .target
  have hhead : head = g.head := h .head
  rw [hsource, htarget, hhead]

lemma has_union (fs : List Flags) (flag : Flag) : (union fs).has flag = fs.any (·.has flag) := by
  cases flag <;> rfl

lemma has_accumulate (earned flags : Flags) (flag : Flag) :
    (accumulate earned flags).has flag = (earned.has flag || flags.has flag) := by
  have hall : flag ∈ Flag.all := by cases flag <;> decide
  rw [accumulate, Altair.has_foldl_set]
  cases he : earned.has flag
  · simp [Altair.newFlags, hall, he]
  · simp

/-- Flags that are set one inclusion after the other are those that any inclusion has. -/
lemma foldl_accumulate (fs : List Flags) : fs.foldl accumulate .none = union fs := by
  have hrun (earned : Flags) (flag : Flag) :
      (fs.foldl accumulate earned).has flag = (earned.has flag || fs.any (·.has flag)) := by
    induction fs generalizing earned with
    | nil => simp
    | cons f fs ih => rw [List.foldl_cons, ih, has_accumulate, List.any_cons, Bool.or_assoc]
  refine ext_has fun flag => ?_
  rw [hrun, has_union]
  cases flag <;> rfl

/-- Flags that include all others are their union. -/
lemma union_cons_of_forall {f : Flags} {fs : List Flags}
    (h : ∀ g ∈ fs, ∀ flag, g.has flag = true → f.has flag = true) : union (f :: fs) = f := by
  refine ext_has fun flag => ?_
  rw [has_union, List.any_cons, Bool.or_eq_left_iff_imp, List.any_eq_true]
  rintro ⟨g, hg, hflag⟩
  exact h g hg flag hflag

end Flags

namespace Bundle

variable {b c : Bundle}

/-! ### Later inclusions -/

/-- Along the chain from the source to the head, delay only takes flags away. -/
lemma has_voteFlags_of_le {data : VoteData} {canonical : Canonical} {head : Root} {d d' : Nat}
    (hd : d ≤ d') {flag : Flag} (h : (b.voteFlags data d' canonical head).has flag = true) :
    (b.voteFlags data d canonical head).has flag = true := by
  cases flag with
  | source =>
    obtain ⟨hsource, hdelay⟩ := of_decide_eq_true h
    exact decide_eq_true ⟨hsource, hd.trans hdelay⟩
  | target =>
    obtain ⟨⟨hsource, hsd⟩, htarget, htd⟩ := of_decide_eq_true h
    exact decide_eq_true ⟨⟨hsource, hd.trans hsd⟩, htarget, hd.trans htd⟩
  | head =>
    obtain ⟨⟨⟨hsource, hsd⟩, htarget, htd⟩, hhead, hhd⟩ := of_decide_eq_true h
    exact decide_eq_true
      ⟨⟨⟨hsource, hd.trans hsd⟩, htarget, hd.trans htd⟩, hhead, hd.trans hhd⟩

lemma has_flagsOf_of_later {i j : Inclusion} (hvote : i.vote = j.vote)
    (hslot : i.block.slot ≤ j.block.slot) {flag : Flag} (h : (b.flagsOf j).has flag = true) :
    (b.flagsOf i).has flag = true := by
  have hdelay : i.delay ≤ j.delay := by
    rw [Inclusion.delay, Inclusion.delay, hvote]
    exact Nat.sub_le_sub_right hslot _
  rw [flagsOf, ← hvote] at h
  exact has_voteFlags_of_le hdelay h

/-- The votes that count are those in proposed blocks of the first two epochs. -/
lemma mem_inclusions {i : Inclusion} : i ∈ b.inclusions ↔
    (i.block ∈ b.window.blocksBeforeNext ∧ i.block.proposed = true) ∧
      ∃ a ∈ i.block.attestations, b.counts i.block a = true ∧ a.data = i.vote ∧
        i.validator ∈ b.window.prev.duties.voters a := by
  obtain ⟨block, vote, v⟩ := i
  simp only [inclusions, aggregates, votesOf, mem_votingBlocks, List.mem_flatMap, List.mem_map,
    List.mem_filter]
  constructor
  · rintro ⟨_, ⟨x, hx, a, ⟨ha, hcounts⟩, rfl⟩, v', hv, heq⟩
    cases heq
    exact ⟨hx, a, ha, hcounts, rfl, hv⟩
  · rintro ⟨hx, a, ha, hcounts, rfl, hv⟩
    exact ⟨_, ⟨block, hx, a, ⟨ha, hcounts⟩, rfl⟩, v, hv, rfl⟩

lemma aggregates_ordered (b : Bundle) :
    b.aggregates.Pairwise fun x y => x.1.slot ≤ y.1.slot := by
  rw [aggregates, List.pairwise_flatMap]
  constructor
  · intro block _
    exact List.pairwise_map.2 (List.pairwise_of_forall fun _ _ => Nat.le_refl _)
  · refine (votingBlocks_ordered b.window).imp fun hslot x hx y hy => ?_
    obtain ⟨_, -, rfl⟩ := List.mem_map.1 hx
    obtain ⟨_, -, rfl⟩ := List.mem_map.1 hy
    exact hslot

lemma inclusions_ordered (b : Bundle) :
    b.inclusions.Pairwise fun i j => i.block.slot ≤ j.block.slot := by
  rw [inclusions, List.pairwise_flatMap]
  constructor
  · intro x _
    exact List.pairwise_map.2 (List.pairwise_of_forall fun _ _ => Nat.le_refl _)
  · refine (aggregates_ordered b).imp fun hslot i hi j hj => ?_
    obtain ⟨_, -, rfl⟩ := List.mem_map.1 hi
    obtain ⟨_, -, rfl⟩ := List.mem_map.1 hj
    exact hslot

/-! ### One vote for each validator -/

/-- No validator is named with two different votes for the first epoch. -/
def SingleVoted (b : Bundle) : Prop :=
  ∀ i ∈ b.inclusions, ∀ j ∈ b.inclusions, i.validator = j.validator → i.vote = j.vote

def inclusionsOf (b : Bundle) (v : ValidatorIndex) : List Inclusion :=
  b.inclusions.filter (·.validator = v)

/-- The first inclusion of a validator has the flags of all. -/
lemma flags_settle (h : b.SingleVoted) (v : ValidatorIndex) :
    (b.settle b.inclusions v .zero).flags = Flags.union ((b.inclusionsOf v).map b.flagsOf) := by
  have hfirst : b.inclusions.find? (·.validator = v) = (b.inclusionsOf v).head? :=
    (List.head?_filter ..).symm
  have hordered := (inclusions_ordered b).sublist (List.filter_sublist (p := (·.validator = v)))
  have hmem (i : Inclusion) (hi : i ∈ b.inclusionsOf v) : i ∈ b.inclusions ∧ i.validator = v := by
    simpa [inclusionsOf] using hi
  change (b.inclusionsOf v).Pairwise _ at hordered
  rw [settle, hfirst]
  cases his : b.inclusionsOf v with
  | nil => rfl
  | cons i later =>
    rw [his, List.pairwise_cons] at hordered
    rw [his] at hmem
    obtain ⟨hi, hv⟩ := hmem i List.mem_cons_self
    rw [List.map_cons, Flags.union_cons_of_forall]
    · rfl
    · intro g hg flag hflag
      obtain ⟨j, hj, rfl⟩ := List.mem_map.1 hg
      obtain ⟨hj', hv'⟩ := hmem j (List.mem_cons_of_mem _ hj)
      exact has_flagsOf_of_later (h i hi j hj' (hv.trans hv'.symm)) (hordered.1 j hj) hflag

/-- The flags of validators are those that their votes earn wherever they are included. -/
structure FlagsAccumulate (b c : Bundle) : Prop where
  /-- a vote is included by a proposed block of the first two epochs, if it counts there -/
  included : ∀ i, i ∈ b.inclusions ↔
    (i.block ∈ b.window.blocksBeforeNext ∧ i.block.proposed = true) ∧
      ∃ a ∈ i.block.attestations, b.counts i.block a = true ∧ a.data = i.vote ∧
        i.validator ∈ b.window.prev.duties.voters a
  /-- its flags are those for its delay, against roots that are all known -/
  earned : ∀ i ∈ b.inclusions, ∃ target head,
    b.window.current.blockRootOf b.network b.window.prev.epoch = .ok target ∧
      b.window.current.blockRootAt b.network i.vote.slot = .ok head ∧
        b.flagsOf i = b.voteFlags i.vote (i.block.slot - i.vote.slot)
          ⟨b.window.prev.currentJustified, ⟨b.window.prev.epoch, target⟩⟩ head
  /-- the flags of a validator are those of all its inclusions together -/
  union : ∀ v, (c.tallies[v]?).map (·.flags) = (b.window.next.validators[v]?).map fun _ =>
    Flags.union ((b.inclusionsOf v).map b.flagsOf)
  /-- which are the ones set by one inclusion after the other -/
  protocol : ∀ v, (c.tallies[v]?).map (·.flags) = (b.window.next.validators[v]?).map fun _ =>
    ((b.inclusionsOf v).map b.flagsOf).foldl Flags.accumulate .none

/-- **First inclusions accumulate.** If no validator is named with two different votes, the flags
of its first inclusion are all that the protocol would set over its inclusions. -/
theorem processAttestations_accumulates {net : Network} {phase : Phase}
    {preference : ReportPreference} {w : Window} {credits : List Credit}
    (hb : fresh net phase preference w = .ok b) (hsingle : b.SingleVoted)
    (h : processAttestations b = .ok credits c) : FlagsAccumulate b c := by
  obtain ⟨-, -, hwindow, htallies, -⟩ := fresh_ok hb
  obtain ⟨⟨target, htarget⟩, hresolved, hw, -⟩ := processAttestations_ok (unvoted_fresh hb) h
  have hunion (v : ValidatorIndex) : (c.tallies[v]?).map (·.flags)
      = (b.window.next.validators[v]?).map fun _ =>
        Flags.union ((b.inclusionsOf v).map b.flagsOf) := by
    rw [hw.tally, htallies, List.getElem?_map, hwindow, Option.map_map, Option.map_map,
      ← flags_settle hsingle]
    rfl
  refine ⟨fun i => mem_inclusions, fun i hi => ?_, hunion, fun v => ?_⟩
  · obtain ⟨x, hx, hi⟩ := List.mem_flatMap.1 hi
    obtain ⟨head, hhead⟩ := (hresolved x hx).head
    obtain ⟨v, -, rfl⟩ := List.mem_map.1 hi
    refine ⟨target, head, htarget, hhead, ?_⟩
    rw [flagsOf, canonical, keptRoot_ok htarget, keptRoot_ok hhead]
    rfl
  · rw [Flags.foldl_accumulate]
    exact hunion v

/-- The vote of the second validator, included twice, keeps the flags of the earlier block. -/
theorem lateWindow_accumulates :
    fresh .fourSlots .altair .strictlyPositive lateWindow = .ok lateBundle ∧
      lateBundle.SingleVoted ∧
      ((lateBundle.inclusionsOf 1).map lateBundle.flagsOf
        = [⟨true, true, false⟩, ⟨false, false, false⟩]) ∧
      ∃ c, processAttestations lateBundle = .ok lateCredits c ∧ FlagsAccumulate lateBundle c := by
  have hfresh : fresh .fourSlots .altair .strictlyPositive lateWindow = .ok lateBundle := rfl
  have hvotes : lateBundle.inclusions.map (·.vote)
      = List.replicate 3 ⟨3, 0, .zero, ⟨0, .zero⟩, ⟨0, .zero⟩⟩ := by cbv
  have hsingle : lateBundle.SingleVoted := by
    intro i hi j hj _
    have hall (k : Inclusion) (hk : k ∈ lateBundle.inclusions) :=
      List.eq_of_mem_replicate (hvotes ▸ List.mem_map_of_mem (f := Inclusion.vote) hk)
    rw [hall i hi, hall j hj]
  have hflags : (lateBundle.inclusionsOf 1).map lateBundle.flagsOf
      = [⟨true, true, false⟩, ⟨false, false, false⟩] := by cbv
  obtain ⟨c, hrun⟩ := lateBundle_credits
  exact ⟨hfresh, hsingle, hflags, c, hrun, processAttestations_accumulates hfresh hsingle hrun⟩

end Bundle

end EpochRewards
