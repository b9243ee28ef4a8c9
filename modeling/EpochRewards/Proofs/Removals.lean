import EpochRewards.Chain.Edit
import EpochRewards.Proofs.PerfectChains

/-!
Votes that are removed one after another.

A validator is in one committee of an epoch, and one block at most includes the votes of a
committee. So a removal clears one bit of one aggregate, and what a chain has after several of them
depends on which were made.
-/

namespace EpochRewards

/-- The snapshot with each of its votes changed. -/
def Snapshot.mapVotes (g : Attestation → Attestation) (s : Snapshot) : Snapshot :=
  { s with blocks := s.blocks.map fun b => { b with attestations := b.attestations.map g } }

namespace Chain

/-! ### Changes of votes that do not fail -/

section Calm

variable {f : Attestation → Except Fault Attestation} {g : Attestation → Attestation}

lemma run_mapM_calm {σ α β : Type} {f : α → StateM σ β} {g : α → β} (xs : List α) (t : σ)
    (h : ∀ x ∈ xs, (f x).run t = (g x, t)) : (xs.mapM f).run t = (xs.map g, t) := by
  induction xs with
  | nil => rfl
  | cons x xs ih =>
    obtain ⟨hx, hxs⟩ := List.forall_mem_cons.1 h
    rw [List.mapM_cons, StateT.run_bind, hx]
    show (xs.mapM f >>= fun ys => pure (g x :: ys)).run t = _
    rw [StateT.run_bind, ih hxs]
    rfl

lemma run_editVotesOf {s : Snapshot}
    (h : ∀ b ∈ s.blocks, ∀ a ∈ b.attestations, f a = .ok (g a)) :
    (editVotesOf f s).run none = (s.mapVotes g, none) := by
  have hvote (b : Block) (hb : b ∈ s.blocks) (a : Attestation) (ha : a ∈ b.attestations) :
      (editVote f a).run none = (g a, none) := by
    rw [editVote, StateT.run_bind, h b hb a ha]
    rfl
  have hblocks := run_mapM_calm s.blocks (none : Option Fault)
    (f := fun b => do return { b with attestations := ← b.attestations.mapM (editVote f) })
    (g := fun b => { b with attestations := b.attestations.map g }) fun b hb => by
      rw [StateT.run_bind, run_mapM_calm _ _ (hvote b hb)]
      rfl
  rw [editVotesOf, StateT.run_bind, hblocks]
  rfl

lemma editVotes_calm {c : Chain}
    (h : ∀ s ∈ c.states, ∀ b ∈ s.blocks, ∀ a ∈ b.attestations, f a = .ok (g a)) :
    editVotes f c = .ok () { c with states := c.states.map (·.mapVotes g) } := by
  have hstates := run_mapM_calm c.states (none : Option Fault)
    fun s hs => run_editVotesOf (h s hs)
  simp only [editVotes, Pass.bind_ok, Pass.get_ok]
  refine ⟨c, c, ⟨rfl, rfl⟩, ?_⟩
  rw [hstates]
  rfl

end Calm

/-! ### Duties -/

variable {net : Network} {n last : Nat} {removed : Removals} {c : Chain} {v : ValidatorIndex}
  {e : Epoch}

/-- A duty is a place in the committee of a slot of the epoch. -/
lemma PerfectBut.dutyOf_ok (h : c.PerfectBut net n last removed) {slot : Slot} {place : Nat}
    (hduty : c.dutyOf v e = .ok (slot, place)) :
    net.epochOf slot = e ∧ (committeeMembers net n slot)[place]? = some v := by
  simp only [dutyOf, Calc.bind_ok, Calc.orFail_ok] at hduty
  obtain ⟨s, hs, hfind⟩ := hduty
  have hperfect := h.state e s (Calc.orFail_ok.1 hs)
  obtain ⟨committee, hcommittee, hplace⟩ := List.exists_of_findSome?_eq_some hfind
  obtain ⟨i, hindex, hpair⟩ := Option.map_eq_some_iff.1 hplace
  obtain ⟨rfl, rfl⟩ := Prod.mk.inj hpair
  obtain ⟨hslot, hmembers, -⟩ := (hperfect.committees committee).1 hcommittee
  refine ⟨((Network.mem_slotsOf hperfect.listed).1 hslot).1, ?_⟩
  have hlist : committee.members = committeeMembers net n committee.slot :=
    congrArg Committee.members hmembers
  rw [hlist] at hindex
  obtain ⟨hlt, hget, -⟩ := List.idxOf?_eq_some_iff.1 hindex
  exact List.getElem?_eq_some_iff.2 ⟨hlt, hget⟩

/-! ### One removal -/

/-- What a validator's removal does to the bits of its committee. -/
lemma set_bits {slot : Slot} {place : Nat}
    (hplace : (committeeMembers net n slot)[place]? = some v) :
    ((committeeMembers net n slot).map fun u => decide ((u, net.epochOf slot) ∉ removed)).set place
        false
      = (committeeMembers net n slot).map fun u =>
        decide ((u, net.epochOf slot) ∉ removed ++ [(v, net.epochOf slot)]) := by
  refine List.ext_getElem? fun i => ?_
  rw [List.getElem?_set, List.getElem?_map, List.length_map]
  obtain ⟨hlt, hv⟩ := List.getElem?_eq_some_iff.1 hplace
  by_cases heq : place = i
  · subst heq
    rw [if_pos rfl, if_pos hlt, List.getElem?_map, hplace]
    simp
  · rw [if_neg heq, List.getElem?_map]
    cases hu : (committeeMembers net n slot)[i]? with
    | none => rfl
    | some u =>
      -- no other place has the validator
      have hother : u ≠ v := by
        rintro rfl
        obtain ⟨hi, hu⟩ := List.getElem?_eq_some_iff.1 hu
        exact heq ((nodup_committeeMembers net n slot).getElem_inj_iff.1 (hv.trans hu.symm))
      simp [hother]

/-- Only the aggregate of the slot in which the validator votes has a bit to clear. -/
lemma aggregateAt_append {slot slot' : Slot} {place : Nat}
    (hplace : (committeeMembers net n slot)[place]? = some v) :
    (if (aggregateAt net n removed slot').data.slot = slot then do
        let bits ← (aggregateAt net n removed slot').bits.clear place
        return { aggregateAt net n removed slot' with bits }
      else return aggregateAt net n removed slot' : Except Fault Attestation)
      = .ok (aggregateAt net n (removed ++ [(v, net.epochOf slot)]) slot') := by
  have hdata : (aggregateAt net n removed slot').data.slot = slot' := rfl
  rw [hdata]
  by_cases hslot : slot' = slot
  · subst hslot
    obtain ⟨hlt, -⟩ := List.getElem?_eq_some_iff.1 hplace
    have hclear : (aggregateAt net n removed slot').bits.clear place
        = .ok (aggregateAt net n (removed ++ [(v, net.epochOf slot')]) slot').bits := by
      have hlength : place < (aggregateAt net n removed slot').bits.bits.length := by
        show place < List.length (List.map _ _)
        rwa [List.length_map]
      rw [BitVector.clear, if_pos hlength]
      show Except.ok (BitVector.ofBits (List.set (List.map _ _) place false)) = _
      rw [set_bits hplace]
      rfl
    rw [if_pos rfl, hclear]
    rfl
  · rw [if_neg hslot]
    -- the validator has no other vote in the epoch
    have hbits : ∀ u ∈ committeeMembers net n slot',
        decide ((u, net.epochOf slot') ∉ removed)
          = decide ((u, net.epochOf slot') ∉ removed ++ [(v, net.epochOf slot)]) := by
      intro u hu
      have hother : (u, net.epochOf slot') ≠ (v, net.epochOf slot) := by
        intro heq
        obtain ⟨rfl, hepoch⟩ := Prod.mk.inj heq
        exact hslot (eq_of_mem_committeeMembers (List.mem_of_getElem? hplace) hu hepoch)
      simp [hother]
    rw [aggregateAt, aggregateAt, List.map_congr_left hbits]
    rfl

/-- What is left of the votes in a block after one more removal. -/
lemma map_votesIn {slot : Slot} {g : Attestation → Attestation} {removed' : Removals}
    (hg : ∀ slot, g (aggregateAt net n removed slot) = aggregateAt net n removed' slot) :
    (votesIn net n removed slot).map g = votesIn net n removed' slot := by
  cases slot with
  | zero => rfl
  | succ slot =>
    rw [votesIn, votesIn]
    split
    · rfl
    · rw [List.map_singleton, hg]

end Chain

open Chain in
lemma Snapshot.PerfectBut.mapVotes {net : Network} {n : Nat} {removed removed' : Removals}
    {e : Epoch} {s : Snapshot} {g : Attestation → Attestation} (h : s.PerfectBut net n removed e)
    (hg : ∀ slot, g (aggregateAt net n removed slot) = aggregateAt net n removed' slot) :
    (s.mapVotes g).PerfectBut net n removed' e := by
  have hslots : (s.mapVotes g).blocks.map (·.slot) = s.blocks.map (·.slot) := by
    rw [Snapshot.mapVotes, List.map_map]
    rfl
  refine { h with
    taken := ⟨h.taken.epoch, h.taken.slot, h.taken.real⟩
    listed := hslots ▸ h.listed
    committees := hslots ▸ h.committees
    blocks := fun b hb => ?_ }
  obtain ⟨b, hmem, rfl⟩ := List.mem_map.1 hb
  have hb := h.blocks b hmem
  exact { hb with votes := by rw [hb.votes, map_votesIn hg] }

namespace Chain

variable {net : Network} {n last : Nat} {removed : Removals} {c c' : Chain} {v : ValidatorIndex}
  {e : Epoch}

/-- **One removal.** A successful one adds to the votes that were removed, and that is all. -/
lemma PerfectBut.removeVote (h : c.PerfectBut net n last removed)
    (hrun : removeVote v e c = .ok () c') : c'.PerfectBut net n last (removed ++ [(v, e)]) := by
  simp only [Chain.removeVote, Pass.bind_ok, Pass.get_ok, Pass.lift_ok] at hrun
  obtain ⟨_, _, ⟨rfl, rfl⟩, ⟨slot, place⟩, _, ⟨hduty, rfl⟩, hrun⟩ := hrun
  obtain ⟨rfl, hplace⟩ := h.dutyOf_ok hduty
  let g (a : Attestation) := aggregateAt net n (removed ++ [(v, net.epochOf slot)]) a.data.slot
  have hcalm := editVotes_calm (c := c) (g := g) (f := fun a =>
      if a.data.slot = slot then do return { a with bits := ← a.bits.clear place } else return a)
    fun s hs b hb a ha => by
      obtain ⟨e, he⟩ := List.mem_iff_getElem?.1 hs
      rw [((h.state e s he).blocks b hb).votes] at ha
      obtain ⟨slot', -, -, rfl⟩ := mem_votesIn ha
      exact aggregateAt_append hplace
  rw [hcalm] at hrun
  cases hrun
  refine ⟨h.network, by rw [List.length_map, h.length], fun e s hs => ?_⟩
  rw [List.getElem?_map] at hs
  obtain ⟨t, ht, rfl⟩ := Option.map_eq_some_iff.1 hs
  exact (h.state e t ht).mapVotes fun _ => rfl

/-! ### Any number of removals -/

/-- Removes votes one after another. -/
def removeVotes (calls : Removals) : Edit Unit := calls.forM fun (v, epoch) => removeVote v epoch

lemma PerfectBut.removeVotes {calls : Removals} (h : c.PerfectBut net n last removed)
    (hrun : removeVotes calls c = .ok () c') :
    c'.PerfectBut net n last (removed ++ calls) := by
  induction calls generalizing c removed with
  | nil =>
    obtain rfl := Pass.forM_nil_ok.1 hrun
    rwa [List.append_nil]
  | cons call calls ih =>
    obtain ⟨d, hd, hrest⟩ := Pass.forM_cons_ok.1 hrun
    rw [List.append_cons]
    exact ih (h.removeVote hd) hrest

end Chain

end EpochRewards
