import EpochRewards.Proofs.Failures
import EpochRewards.Proofs.PerfectChains

/-!
The ring of block roots, as it is written and as it is read.

A chain writes into each position the root of the one slot of the last turn that has the position
as its remainder. A lookup goes to the same position, but says for itself which slots have passed
and have not been written over, and in the first turn the two begin at different ends. They agree:
what is found is the root of the slot asked for, and every other slot is refused, although its
position may have a root as well.
-/

namespace EpochRewards

namespace Chain

/-! ### Writing -/

/-- The slots of the last turn that have passed, the oldest one first. -/
def lastTurn (ring now : Nat) : List Slot := List.range' (now - ring) (now - (now - ring))

lemma mem_lastTurn {ring now slot : Nat} :
    slot ∈ lastTurn ring now ↔ slot < now ∧ now ≤ slot + ring := by
  rw [lastTurn, List.mem_range'_1]
  omega

/-- Every position is that of a slot at most one turn after the oldest one. -/
lemma exists_age {ring i : Nat} (oldest : Nat) (hi : i < ring) :
    ∃ age < ring, (oldest + age) % ring = i := by
  have hpos := Nat.zero_lt_of_lt hi
  have hrest := Nat.mod_lt oldest hpos
  have hturn : oldest % ring + (i + ring - oldest % ring) = i + ring := by omega
  refine ⟨(i + ring - oldest % ring) % ring, Nat.mod_lt _ hpos, ?_⟩
  rw [Nat.add_mod_mod, ← Nat.mod_add_mod, hturn, Nat.add_mod_right, Nat.mod_eq_of_lt hi]

/-- **What is written.** A position has the root of the slot of the last turn that belongs there,
and no root if no such slot has passed yet. -/
theorem ringRoot_eq_find {ring now i : Nat} (hi : i < ring) : ringRoot ring now i =
    match (lastTurn ring now).find? (· % ring == i) with
    | some slot => blockRoot slot
    | none => .ok .zero := by
  obtain ⟨age, hage, rfl⟩ := exists_age (now - ring) hi
  rw [ringRoot_turn hage]
  cases hfind : (lastTurn ring now).find? (· % ring == (now - ring + age) % ring) with
  | none =>
    -- the slot is not in the list, so it has not passed
    have hnone : ¬ now - ring + age < now := fun hpassed =>
      List.find?_eq_none.1 hfind _ (mem_lastTurn.2 (by omega)) (beq_self_eq_true _)
    rw [if_neg hnone]
  | some slot =>
    have hmem := List.mem_of_find?_eq_some hfind
    have hmod : slot % ring = (now - ring + age) % ring := by simpa using List.find?_some hfind
    obtain ⟨hpassed, hring⟩ := mem_lastTurn.1 hmem
    obtain ⟨age', rfl⟩ : ∃ age, slot = now - ring + age := Nat.exists_eq_add_of_le (by omega)
    have hage' : age' < ring := by omega
    have hsame : age = age' := by rw [← add_mod_sub_mod hage, ← hmod, add_mod_sub_mod hage']
    rw [hsame, if_pos hpassed]

/-- Blocks of different slots have different roots. -/
lemma blockRoot_inj {slot other : Slot} {r : Root} (h : blockRoot slot = .ok r)
    (h' : blockRoot other = .ok r) : other = slot := by
  obtain ⟨hslot, rfl⟩ := blockRoot_ok h
  obtain ⟨hother, hroot⟩ := blockRoot_ok h'
  have hwidth {n : Nat} (hn : n < Word.max) : n + 1 < 2 ^ (8 * 32) :=
    Nat.lt_of_lt_of_le (Nat.succ_lt_succ hn) (by decide)
  have hval := congrArg (fun d : Root => d.val.toNat) hroot
  dsimp only [rootAt, Digest.ofNat] at hval
  rw [BitVec.toNat_ofNat, BitVec.toNat_ofNat, Nat.mod_eq_of_lt (hwidth hslot),
    Nat.mod_eq_of_lt (hwidth hother)] at hval
  exact (Nat.succ.inj hval).symm

end Chain

open Chain

/-! ### Reading -/

/-- The root of a slot is found from the slot after it until the ring has come around to it. Any
other slot is refused. -/
structure Snapshot.ReadsAsWritten (net : Network) (s : Snapshot) : Prop where
  kept : ∀ slot, slot + net.rootRing.val ≤ Word.max → slot < s.slot →
    s.slot ≤ slot + net.rootRing.val → ∃ r, blockRoot slot = .ok r ∧
      s.blockRootAt net slot = .ok r ∧ ∀ other, blockRoot other = .ok r → other = slot
  refused : ∀ slot, slot + net.rootRing.val ≤ Word.max →
    ¬ (slot < s.slot ∧ s.slot ≤ slot + net.rootRing.val) →
      s.blockRootAt net slot = .error (.error (.slotOutOfRange slot s.slot))

namespace Snapshot.PerfectBut

variable {net : Network} {n e slot : Nat} {removed : Removals} {s : Snapshot}

/-- A root that is found is that of the block. -/
lemma blockRootAt_ok (h : s.PerfectBut net n removed e) {r : Root}
    (hr : s.blockRootAt net slot = .ok r) : r = rootAt slot := by
  obtain ⟨⟨hslot, hring⟩, -, hroot⟩ := Snapshot.blockRootAt_ok.1 hr
  rw [h.ring slot hslot hring] at hroot
  exact (Option.some.inj hroot).symm

lemma readsAsWritten (h : s.PerfectBut net n removed e) : s.ReadsAsWritten net where
  kept slot hword hslot hring := by
    have hbound : slot + net.rootRing.val < Word.bound := Nat.lt_of_le_of_lt hword (by decide)
    have hroot : blockRoot slot = .ok (rootAt slot) := by
      have hpos := net.rootRing.pos
      rw [blockRoot, Word.add_eq (by omega)]
      rfl
    exact ⟨rootAt slot, hroot,
      Snapshot.blockRootAt_ok.2 ⟨⟨hslot, hring⟩, hbound, h.ring slot hslot hring⟩,
      fun _ => blockRoot_inj hroot⟩
  refused slot hword hout :=
    blockRootAt_outOfRange (Nat.lt_of_le_of_lt hword (by decide)) hout

end Snapshot.PerfectBut

namespace Chain

variable {net : Network} {n : Nat} {e : Epoch} {s : Snapshot}

/-- **No root is stale.** The state that is built for an epoch stands at the last slot of the epoch
and is the state of every chain that comes to the epoch. A lookup in it finds the root of the very
slot that is asked for as long as the slot is among those of the last turn, of which there are
fewer in a state that is younger than a turn. For any other slot it says that the slot is out of
range, whatever its position has. -/
theorem never_stale (h : buildSnapshot net n e = .ok s) :
    s.slot = net.terminalSlot e ∧
      (∀ last c, Chain.build net n last = .ok c → e ≤ last → c.state e = .ok s) ∧
        s.ReadsAsWritten net := by
  have hperfect := perfect_buildSnapshot h
  refine ⟨hperfect.taken.slot, fun last c hc hlast => ?_, hperfect.readsAsWritten⟩
  have he : e < c.states.length := by
    rw [(perfect_build hc).length]
    exact Nat.lt_succ_of_le hlast
  have hstate : c.states[e]? = some c.states[e] := List.getElem?_eq_getElem he
  have hsame : c.states[e] = s :=
    Except.ok.inj ((buildSnapshot_of_build hc hstate).symm.trans h)
  rw [Chain.state, hstate, hsame]
  rfl

/-- Epochs of two slots, and a ring that comes around with each of them. -/
def shortRing : Network :=
  { Network.minimal with
    slotsPerEpoch := ⟨2, Nat.two_pos⟩
    rootRing := ⟨2, Nat.two_pos⟩
    syncCommitteeSize := ⟨1, Nat.one_pos⟩ }

lemma shortRing_isBuilt : (buildSnapshot shortRing 3 2).toOption.isSome = true := by cbv

/-- At slot 5 the root of slot 3 is found. Slot 2 is refused, whose position has the root of
slot 4. -/
theorem shortRing_never_stale : ∃ s, buildSnapshot shortRing 3 2 = .ok s ∧ s.slot = 5 ∧
    s.ReadsAsWritten shortRing ∧ s.blockRootAt shortRing 3 = .ok (.ofNat 32 4) ∧
      s.blockRootAt shortRing 2 = .error (.error (.slotOutOfRange 2 5)) ∧
        s.blockRoots[2 % 2]? = some (.ofNat 32 5) := by
  obtain ⟨s, hs⟩ := Calc.ok_of_isSome shortRing_isBuilt
  obtain ⟨hslot, -, hreads⟩ := never_stale hs
  have hslot : s.slot = 5 := hslot
  refine ⟨s, hs, hslot, hreads, ?_, ?_, ?_⟩
  · obtain ⟨r, hr, hfound, -⟩ := hreads.kept 3 (by decide) (by rw [hslot]; decide)
      (by rw [hslot]; decide)
    rw [hfound, (blockRoot_ok hr).2, rootAt]
  · rw [hreads.refused 2 (by decide) (by rw [hslot]; decide), hslot]
  · exact (perfect_buildSnapshot hs).ring 4 (by rw [hslot]; decide) (by rw [hslot]; decide)

end Chain

end EpochRewards
