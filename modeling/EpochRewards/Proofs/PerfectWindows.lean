import EpochRewards.Proofs.Completeness
import EpochRewards.Proofs.Openings
import EpochRewards.Proofs.Rings

/-!
Windows of a perfect chain.

A snapshot has the root of every slot that votes refer to, and all votes agree with it, whichever
of them were removed. So the passes have nothing to object to, unless the slots of the last epoch
are no words any more; then the lookup of the first root already overflows.
-/

namespace EpochRewards

open Chain

lemma BitVector.mem_onesFrom {bits : List Bool} {k i : Nat} :
    i ∈ onesFrom k bits ↔ k ≤ i ∧ bits[i - k]? = some true := by
  induction bits generalizing k with
  | nil => simp [onesFrom]
  | cons bit bits ih =>
    have hnext (h : k + 1 ≤ i) : i - k = i - (k + 1) + 1 := by omega
    rcases Nat.lt_trichotomy i k with hlt | rfl | hgt
    · cases bit
      · simp [onesFrom, ih]
        omega
      · simp [onesFrom, ih]
        omega
    · cases bit
      · simp [onesFrom, ih]
      · simp [onesFrom]
    · have hne : i ≠ k := by omega
      have hle : k ≤ i := by omega
      cases bit
      · simp [onesFrom, ih, hnext hgt, hle, Nat.succ_le_of_lt hgt]
      · simp [onesFrom, ih, hnext hgt, hle, hne, Nat.succ_le_of_lt hgt]

namespace Snapshot.PerfectBut

variable {net : Network} {n e slot : Nat} {removed : Removals} {s : Snapshot} {block : Block}
  {a : Attestation} {v : ValidatorIndex} {err : RewardError}

lemma slot_eq (h : s.PerfectBut net n removed e) :
    s.slot = min ((e + 1) * net.slotsPerEpoch.val) Word.max - 1 := by
  have hsucc : Word.satAdd e 1 = e + 1 := Nat.min_eq_left (Network.slotsOf_ok h.listed).1
  rw [h.taken.slot, Network.terminalSlot, hsucc]
  rfl

lemma slot_le (h : s.PerfectBut net n removed e) (hepoch : net.epochOf slot = e)
    (hword : slot < Word.max) : slot ≤ s.slot := by
  rw [h.slot_eq]
  exact Nat.le_sub_one_of_lt (Nat.lt_min.2 ⟨(Complete.bounds_of_epochOf hepoch).2, hword⟩)

lemma mem_slots (h : s.PerfectBut net n removed e) :
    slot ∈ s.blocks.map (·.slot) ↔ net.epochOf slot = e ∧ slot < Word.max :=
  Network.mem_slotsOf h.listed

/-! ### Roots -/

/-- The ring has the roots of the epoch and of the one before it. -/
lemma no_error_root (h : s.PerfectBut net n removed (e + 1))
    (hring : 2 * net.slotsPerEpoch.val ≤ net.rootRing.val)
    (hfirst : e * net.slotsPerEpoch.val ≤ slot) (hslot : slot < s.slot) :
    s.blockRootAt net slot ≠ .error (.error err) := by
  have hepochs : (e + 1 + 1) * net.slotsPerEpoch.val
      = e * net.slotsPerEpoch.val + 2 * net.slotsPerEpoch.val := by ring
  have hlast := h.slot_eq
  rw [hepochs] at hlast
  have harith (now first spe ring slot m : Nat) (hnow : now = min (first + spe) m - 1)
      (hring : spe ≤ ring) (hfirst : first ≤ slot) : now ≤ slot + ring := by omega
  have hkept := harith _ _ _ _ _ _ hlast hring hfirst
  exact no_error_of_kept hslot hkept (h.ring slot hslot hkept)

/-! ### Committees -/

lemma members? (h : s.PerfectBut net n removed e) (hepoch : net.epochOf slot = e)
    (hword : slot < Word.max) (hne : committeeMembers net n slot ≠ []) :
    s.duties.members? slot 0 = some (committeeMembers net n slot) := by
  have hmem : committeeAt net n slot ∈ s.duties.committees :=
    (h.committees _).2 ⟨h.mem_slots.2 ⟨hepoch, hword⟩, rfl, hne⟩
  cases hfind : s.duties.members? slot 0 with
  | none =>
    rw [Duties.members?, Option.map_eq_none_iff, List.find?_eq_none] at hfind
    exact absurd (hfind _ (List.mem_reverse.2 hmem)) (by simp [committeeAt])
  | some members =>
    obtain ⟨c, hc, hslot, -, rfl⟩ := Duties.mem_of_members? hfind
    rw [((h.committees c).1 hc).2.1, hslot]
    rfl

lemma no_error_attesters (h : s.PerfectBut net n removed e) (hepoch : net.epochOf slot = e)
    (hword : slot < Word.max) (hne : committeeMembers net n slot ≠ []) :
    s.duties.attesters (aggregateAt net n removed slot) ≠ .error (.error err) := by
  have herrs : Calc.Errs (fun e => e ≠ .error err)
      (s.duties.attesters (aggregateAt net n removed slot)) := by
    unfold Duties.attesters
    dsimp only [aggregateAt, voteAt]
    rw [h.members? hepoch hword hne]
    refine .bind (.ok _) fun members hmembers => .mapM fun i hi => .orFail fun hnone => ?_
    cases hmembers
    have hbit := (BitVector.mem_onesFrom.1 hi).2
    rw [Nat.sub_zero, BitVector.ofBits, List.getElem?_map, hnone] at hbit
    cases hbit
  exact fun hfail => herrs _ hfail rfl

/-- The members whose votes were not removed. -/
lemma mem_voters (h : s.PerfectBut net n removed e) (hepoch : net.epochOf slot = e)
    (hword : slot < Word.max) (hne : committeeMembers net n slot ≠ []) :
    v ∈ s.duties.voters (aggregateAt net n removed slot) ↔
      v ∈ committeeMembers net n slot ∧ (v, e) ∉ removed := by
  have hmembers : s.duties.members? (aggregateAt net n removed slot).data.slot
      (aggregateAt net n removed slot).data.index = some (committeeMembers net n slot) :=
    h.members? hepoch hword hne
  rw [Duties.voters, hmembers, Option.getD_some, List.mem_filterMap]
  have hbit (i : Nat) : i ∈ (aggregateAt net n removed slot).bits.ones ↔
      ∃ u, (committeeMembers net n slot)[i]? = some u ∧ (u, e) ∉ removed := by
    rw [BitVector.ones, BitVector.mem_onesFrom, Nat.sub_zero, aggregateAt, BitVector.ofBits,
      List.getElem?_map, Option.map_eq_some_iff, hepoch]
    simp
  simp only [hbit]
  constructor
  · rintro ⟨i, ⟨u, hu, hkept⟩, hv⟩
    obtain rfl := Option.some.inj (hu.symm.trans hv)
    exact ⟨List.mem_of_getElem? hv, hkept⟩
  · rintro ⟨hv, hkept⟩
    obtain ⟨i, hi⟩ := List.mem_iff_getElem?.1 hv
    exact ⟨i, ⟨v, hi, hkept⟩, hi⟩

/-- A vote that a block includes is that of the committee of the slot before. -/
lemma votes_ok (h : s.PerfectBut net n removed e) {t : Snapshot} (hv : s.Votes net t block a) :
    ∃ slot, a = aggregateAt net n removed slot ∧ committeeMembers net n slot ≠ [] ∧
      net.epochOf slot = t.epoch ∧ slot < Word.max ∧ slot < s.slot := by
  have hblock := List.mem_of_mem_filter hv.proposed
  have hvotes := hv.included
  rw [(h.blocks block hblock).votes] at hvotes
  obtain ⟨slot, hslot, hne, rfl⟩ := mem_votesIn hvotes
  obtain ⟨hepoch, hword⟩ := h.mem_slots.1 (List.mem_map_of_mem hblock)
  rw [hslot] at hword hepoch
  exact ⟨slot, rfl, hne, hv.epoch, Nat.lt_of_succ_lt hword,
    Nat.lt_of_succ_le (h.slot_le hepoch hword)⟩

lemma length_validators (h : s.PerfectBut net n removed e) : s.validators.length = n := by
  rw [h.validators, List.length_map, List.length_range]

lemma validator?_ne_none (h : s.PerfectBut net n removed e) (hv : v < n) :
    s.validator? v ≠ none := by
  rw [validator?, List.getElem?_eq_getElem (by rwa [h.length_validators])]
  exact Option.some_ne_none _

lemma member_lt (h : s.PerfectBut net n removed e) {c : Committee}
    (hc : c ∈ s.duties.committees) (hv : v ∈ c.members) : v < n := by
  rw [((h.committees c).1 hc).2.1] at hv
  exact (mem_committeeMembers.1 hv).1

end Snapshot.PerfectBut

/-! ### Three epochs in a row -/

/-- A window of a perfect chain that starts with the epoch `e`. -/
structure Window.PerfectBut (net : Network) (n : Nat) (removed : Removals) (e : Epoch)
    (w : Window) : Prop where
  prev : w.prev.PerfectBut net n removed e
  current : w.current.PerfectBut net n removed (e + 1)
  next : w.next.PerfectBut net n removed (e + 2)

namespace Window.PerfectBut

open Snapshot

variable {net : Network} {n e slot : Nat} {removed : Removals} {w : Window} {block : Block}
  {a : Attestation} {v : ValidatorIndex} {err : RewardError}

/-- The second epoch has a slot at least. -/
lemma start_lt (h : w.PerfectBut net n removed e) :
    (e + 1) * net.slotsPerEpoch.val < Word.max := by
  have hreached : min ((e + 1) * net.slotsPerEpoch.val) Word.max < Word.max := h.next.reached
  refine Nat.lt_of_not_le fun hle => ?_
  rw [Nat.min_eq_right hle] at hreached
  exact Nat.lt_irrefl _ hreached

lemma startSlot_prev (h : w.PerfectBut net n removed e) :
    net.startSlot w.prev.epoch = e * net.slotsPerEpoch.val := by
  rw [h.prev.taken.epoch]
  exact Nat.min_eq_left (Nat.le_of_lt (Nat.lt_of_le_of_lt
    (Nat.mul_le_mul_right _ (Nat.le_succ e)) h.start_lt))

lemma exists_perfect (h : w.PerfectBut net n removed e) {s : Snapshot} (hs : s ∈ w.snapshots) :
    ∃ f, s.PerfectBut net n removed f := by
  simp only [snapshots, List.mem_cons, List.not_mem_nil, or_false] at hs
  rcases hs with rfl | rfl | rfl
  · exact ⟨_, h.prev⟩
  · exact ⟨_, h.current⟩
  · exact ⟨_, h.next⟩

/-- Every slot of the first two epochs has a block. -/
lemma exists_block (h : w.PerfectBut net n removed e)
    (hfirst : e * net.slotsPerEpoch.val ≤ slot)
    (hlast : slot < (e + 2) * net.slotsPerEpoch.val) (hword : slot < Word.max) :
    ∃ s ∈ [w.prev, w.current], ∃ block ∈ s.blocks, block.slot = slot := by
  have hpos := net.slotsPerEpoch.pos
  have hepoch : net.epochOf slot = e ∨ net.epochOf slot = e + 1 := by
    have hle : e ≤ net.epochOf slot := (Nat.le_div_iff_mul_le hpos).2 hfirst
    have hlt : net.epochOf slot < e + 2 := (Nat.div_lt_iff_lt_mul hpos).2 hlast
    have harith (f : Nat) (hle : e ≤ f) (hlt : f < e + 2) : f = e ∨ f = e + 1 := by omega
    exact harith _ hle hlt
  rcases hepoch with hepoch | hepoch
  · obtain ⟨block, hblock⟩ := List.mem_map.1 (h.prev.mem_slots.2 ⟨hepoch, hword⟩)
    exact ⟨w.prev, by simp, block, hblock⟩
  · obtain ⟨block, hblock⟩ := List.mem_map.1 (h.current.mem_slots.2 ⟨hepoch, hword⟩)
    exact ⟨w.current, by simp, block, hblock⟩

/-- The block that is found for such a slot was proposed. -/
lemma blockAt? (h : w.PerfectBut net n removed e) (hfirst : e * net.slotsPerEpoch.val ≤ slot)
    (hlast : slot < (e + 2) * net.slotsPerEpoch.val) (hword : slot < Word.max) :
    ∃ block, w.blockAt? slot = some block ∧ block.proposed = true := by
  obtain ⟨s, hs, block, hblock, hslot⟩ := h.exists_block hfirst hlast hword
  cases hfind : w.blockAt? slot with
  | none =>
    have hs : s ∈ w.snapshots := by
      simp only [snapshots, List.mem_cons] at hs ⊢
      tauto
    have hnone := List.find?_eq_none.1 (List.findSome?_eq_none_iff.1 hfind s hs) block hblock
    exact absurd (beq_iff_eq.2 hslot) hnone
  | some found =>
    obtain ⟨t, ht, hfound⟩ := List.exists_of_findSome?_eq_some hfind
    obtain ⟨_, hperfect⟩ := h.exists_perfect ht
    exact ⟨found, rfl, (hperfect.blocks found (List.mem_of_find?_eq_some hfound)).proposed⟩

lemma duty_epoch (h : w.PerfectBut net n removed e) {c : Committee}
    (hc : c ∈ w.prev.duties.committees) : net.epochOf c.slot = e :=
  (h.prev.mem_slots.1 ((h.prev.committees c).1 hc).1).1

/-! ### No flaw -/

lemma no_error_target (h : w.PerfectBut net n removed e)
    (hring : 2 * net.slotsPerEpoch.val ≤ net.rootRing.val) :
    w.current.blockRootOf net w.prev.epoch ≠ .error (.error err) := by
  have hpos := net.slotsPerEpoch.pos
  rw [blockRootOf, h.startSlot_prev]
  refine h.current.no_error_root hring (Nat.le_refl _) ?_
  have hnow := h.current.slot_eq
  have hepochs : (e + 1 + 1) * net.slotsPerEpoch.val
      = (e + 1) * net.slotsPerEpoch.val + net.slotsPerEpoch.val := by ring
  have hlater := h.start_lt
  have hfirst : (e + 1) * net.slotsPerEpoch.val
      = e * net.slotsPerEpoch.val + net.slotsPerEpoch.val := by ring
  rw [hepochs] at hnow
  have harith (now first next spe m : Nat) (hnow : now = min (next + spe) m - 1)
      (hnext : next < m) (hfirst : next = first + spe) (hpos : 0 < spe) : first < now := by omega
  exact harith _ _ _ _ _ hnow hlater hfirst hpos

lemma no_error_head (h : w.PerfectBut net n removed e)
    (hring : 2 * net.slotsPerEpoch.val ≤ net.rootRing.val) {s : Snapshot}
    (hs : s ∈ [w.prev, w.current]) (hv : s.Votes net w.prev block a) :
    w.current.blockRootAt net a.data.slot ≠ .error (.error err) := by
  have hslots : w.prev.slot ≤ w.current.slot := by
    rw [h.prev.slot_eq, h.current.slot_eq]
    have hle : (e + 1) * net.slotsPerEpoch.val ≤ (e + 1 + 1) * net.slotsPerEpoch.val :=
      Nat.mul_le_mul_right _ (Nat.le_succ _)
    have harith (first next m : Nat) (h : first ≤ next) : min first m - 1 ≤ min next m - 1 := by
      omega
    exact harith _ _ _ hle
  obtain ⟨slot, hslot, hbefore⟩ : ∃ slot, a.data.slot = slot ∧ slot < w.current.slot := by
    rcases List.mem_pair.1 hs with rfl | rfl
    · obtain ⟨slot, rfl, -, -, -, hslot⟩ := h.prev.votes_ok hv
      exact ⟨slot, rfl, Nat.lt_of_lt_of_le hslot hslots⟩
    · obtain ⟨slot, rfl, -, -, -, hslot⟩ := h.current.votes_ok hv
      exact ⟨slot, rfl, hslot⟩
  have hfirst := (Complete.bounds_of_epochOf hv.epoch).1
  rw [h.prev.taken.epoch] at hfirst
  rw [hslot] at hfirst ⊢
  exact h.current.no_error_root hring hfirst hbefore

section Last

variable {t : Snapshot}

/-- Votes in the last blocks come from the last two epochs. -/
lemma last_bounds (h : w.PerfectBut net n removed e) (ht : t ∈ [w.current, w.next])
    (hv : w.next.Votes net t block a) :
    (e + 1) * net.slotsPerEpoch.val ≤ t.epoch * net.slotsPerEpoch.val ∧
      t.epoch * net.slotsPerEpoch.val ≤ a.data.slot ∧ a.data.slot < w.next.slot ∧
        a.data.slot < Word.max := by
  have hepoch : e + 1 ≤ t.epoch := by
    rcases List.mem_pair.1 ht with rfl | rfl
    · exact Nat.le_of_eq h.current.taken.epoch.symm
    · rw [h.next.taken.epoch]
      exact Nat.le_succ _
  obtain ⟨slot, rfl, -, -, hword, hslot⟩ := h.next.votes_ok hv
  exact ⟨Nat.mul_le_mul_right _ hepoch, (Complete.bounds_of_epochOf hv.epoch).1, hslot, hword⟩

lemma no_error_lastHead (h : w.PerfectBut net n removed e)
    (hring : 2 * net.slotsPerEpoch.val ≤ net.rootRing.val) (ht : t ∈ [w.current, w.next])
    (hv : w.next.Votes net t block a) :
    w.next.blockRootAt net a.data.slot ≠ .error (.error err) := by
  obtain ⟨hepoch, hfirst, hlast, -⟩ := h.last_bounds ht hv
  exact PerfectBut.no_error_root h.next hring (Nat.le_trans hepoch hfirst) hlast

lemma no_error_lastTarget (h : w.PerfectBut net n removed e)
    (hring : 2 * net.slotsPerEpoch.val ≤ net.rootRing.val) (ht : t ∈ [w.current, w.next])
    (hv : w.next.Votes net t block a) :
    w.next.blockRootOf net t.epoch ≠ .error (.error err) := by
  obtain ⟨hepoch, hfirst, hlast, hword⟩ := h.last_bounds ht hv
  have hstart : net.startSlot t.epoch = t.epoch * net.slotsPerEpoch.val :=
    Nat.min_eq_left (Nat.le_trans hfirst (Nat.le_of_lt hword))
  rw [blockRootOf, hstart]
  exact PerfectBut.no_error_root h.next hring hepoch (Nat.lt_of_le_of_lt hfirst hlast)

end Last

lemma no_error_attesters (h : w.PerfectBut net n removed e) {s t : Snapshot}
    (hs : s ∈ w.snapshots) (ht : t ∈ w.snapshots) (hv : s.Votes net t block a) :
    t.duties.attesters a ≠ .error (.error err) := by
  obtain ⟨_, hs⟩ := h.exists_perfect hs
  obtain ⟨_, ht⟩ := h.exists_perfect ht
  obtain ⟨slot, rfl, hne, hepoch, hword, -⟩ := hs.votes_ok hv
  exact ht.no_error_attesters (hepoch.trans ht.taken.epoch) hword hne

/-- The passes have nothing to object to. -/
theorem no_flaw (h : w.PerfectBut net n removed e)
    (hring : 2 * net.slotsPerEpoch.val ≤ net.rootRing.val)
    (hword : (e + 2) * net.slotsPerEpoch.val ≤ Word.max) : ¬ w.Flaw net err := by
  intro hflaw
  cases hflaw with
  | slashed proposed reported missing =>
    rw [(h.next.blocks _ (List.mem_of_mem_filter proposed)).unslashed] at reported
    cases reported
  | @opportunity c delay duty positive reach missing =>
    obtain ⟨hfirst, hlast⟩ := Complete.bounds_of_epochOf (h.duty_epoch duty)
    have hepochs : (e + 2) * net.slotsPerEpoch.val
        = (e + 1) * net.slotsPerEpoch.val + net.slotsPerEpoch.val := by ring
    have hreach : c.slot + delay < (e + 2) * net.slotsPerEpoch.val := by
      rw [hepochs]
      exact Nat.add_lt_add_of_lt_of_le hlast reach
    obtain ⟨block, hblock, -⟩ := h.blockAt? (Nat.le_trans hfirst (Nat.le_add_right _ _)) hreach
      (Nat.lt_of_lt_of_le hreach hword)
    rw [missing] at hblock
    cases hblock
  | target missing => exact h.no_error_target hring missing
  | head lists votes missing => exact h.no_error_head hring lists votes missing
  | lastTarget voted votes missing => exact h.no_error_lastTarget hring voted votes missing
  | lastHead voted votes missing => exact h.no_error_lastHead hring voted votes missing
  | attesters lists voted votes missing => exact h.no_error_attesters lists voted votes missing
  | uncovered duty member missing =>
    rw [h.next.length_validators] at missing
    exact absurd (h.prev.member_lt duty member) (Nat.not_lt.2 missing)
  | unregistered duty member missing =>
    exact h.current.validator?_ne_none (h.prev.member_lt duty member) missing
  | unvalued voted duty member missing =>
    refine h.next.validator?_ne_none ?_ missing
    rcases List.mem_pair.1 voted with rfl | rfl
    · exact h.current.member_lt duty member
    · exact h.next.member_lt duty member
  | analysed active missing =>
    have hlt := Snapshot.lt_of_mem_activeIndices active
    rw [h.next.length_validators] at hlt
    exact h.current.validator?_ne_none hlt missing
  | seat sits holds missing =>
    obtain ⟨v, hv, rfl⟩ := h.next.holders _ sits _ holds
    refine missing (validatorAt v) ?_ rfl
    rw [h.next.validators]
    exact List.mem_map_of_mem (List.mem_range.2 hv)

/-! ### The end of the words -/

/-- The slot after one of the first epoch is one of the first two. -/
lemma next_bounds (h : w.PerfectBut net n removed e) (hepoch : net.epochOf slot = e) :
    e * net.slotsPerEpoch.val ≤ slot + 1 ∧ slot + 1 < (e + 2) * net.slotsPerEpoch.val ∧
      slot + 1 < Word.max := by
  obtain ⟨hfirst, hlast⟩ := Complete.bounds_of_epochOf hepoch
  have hepochs : (e + 2) * net.slotsPerEpoch.val
      = (e + 1) * net.slotsPerEpoch.val + net.slotsPerEpoch.val := by ring
  refine ⟨Nat.le_succ_of_le hfirst, ?_, Nat.lt_of_le_of_lt hlast h.start_lt⟩
  rw [hepochs]
  exact Nat.lt_of_le_of_lt hlast (Nat.lt_add_of_pos_right net.slotsPerEpoch.pos)

/-- The block right after a committee's slot is there. -/
lemma scan_eq (h : w.PerfectBut net n removed e) {c : Committee}
    (hc : c ∈ w.prev.duties.committees) :
    w.scan c.slot net.slotsPerEpoch.val 1 = .ok (some 1) := by
  obtain ⟨hfirst, hlast, hword⟩ := h.next_bounds (h.duty_epoch hc)
  obtain ⟨block, hblock, hproposed⟩ := h.blockAt? hfirst hlast hword
  obtain ⟨rest, hrest⟩ :=
    Nat.exists_eq_succ_of_ne_zero (Nat.pos_iff_ne_zero.1 net.slotsPerEpoch.pos)
  rw [hrest, scan_listed (Nat.lt_of_lt_of_le hword (Nat.sub_le _ _)) hblock, if_pos hproposed]

section Beyond

variable {b : Bundle}

lemma target_overflows (h : w.PerfectBut net n removed e)
    (hring : 2 * net.slotsPerEpoch.val ≤ net.rootRing.val)
    (hbeyond : Word.max < (e + 2) * net.slotsPerEpoch.val) :
    Calc.Errs Failure.IsOverflow (w.current.blockRootOf net w.prev.epoch) ∧
      ∀ r, w.current.blockRootOf net w.prev.epoch ≠ .ok r := by
  refine ⟨fun err herr => ?_, fun r hr => ?_⟩
  · cases err with
    | fault f => exact Snapshot.fault_blockRootAt herr
    | error err => exact (h.no_error_target hring herr).elim
  · -- a root that is found was looked up at a slot with a word one turn later
    obtain ⟨-, hword, -⟩ := Snapshot.blockRootAt_ok.1 hr
    have hepochs : (e + 2) * net.slotsPerEpoch.val
        = e * net.slotsPerEpoch.val + 2 * net.slotsPerEpoch.val := by ring
    rw [hepochs] at hbeyond
    rw [h.startSlot_prev] at hword
    have hlt := Nat.lt_of_lt_of_le hbeyond (Nat.add_le_add_left hring _)
    exact absurd hword (Nat.not_lt.2 (Nat.le_of_pred_lt hlt))

lemma next_blocks_eq_nil (h : w.PerfectBut net n removed e)
    (hbeyond : Word.max < (e + 2) * net.slotsPerEpoch.val) : w.next.proposedBlocks = [] := by
  refine List.eq_nil_iff_forall_not_mem.2 fun block hblock => ?_
  obtain ⟨hepoch, hword⟩ :=
    h.next.mem_slots.1 (List.mem_map_of_mem (List.mem_of_mem_filter hblock))
  exact Nat.lt_irrefl _ (Nat.lt_of_le_of_lt (Complete.bounds_of_epochOf hepoch).1
    (Nat.lt_trans hword hbeyond))

/-- The bundle is about the window. -/
def About (net : Network) (w : Window) (b : Bundle) : Prop := b.network = net ∧ b.window = w

lemma processSlashings_calm (hnone : w.next.proposedBlocks = []) (hb : About net w b)
    (share : ShareRule) : Pass.Meets (fun e _ => e.IsOverflow) (fun _ => About net w)
      (Bundle.processSlashings share b) := by
  refine .get_bind ?_
  rw [hb.2, hnone]
  exact hb

lemma processSyncAggregates_calm (hnone : w.next.proposedBlocks = []) (hb : About net w b) :
    Pass.Meets (fun e _ => e.IsOverflow) (fun _ => About net w)
      (Altair.processSyncAggregates b) := by
  refine .get_bind (.fault_bind (Altair.errs_seatReward b) fun _ _ =>
    .fault_bind Word.errs_mul fun _ _ => ?_)
  rw [hb.2, hnone]
  exact hb

lemma indexOpportunities_calm (h : w.PerfectBut net n removed e) (hb : About net w b) :
    Pass.Meets (fun e _ => e.IsOverflow) (fun _ => About net w)
      (Bundle.indexOpportunities b) := by
  refine .get_bind ?_
  rw [hb.2]
  refine .forM_mem hb fun slot hslot d hd => ?_
  obtain ⟨c, hc, rfl⟩ := Bundle.mem_dutySlots.1 hslot
  refine .get_bind (.lift_bind ?_ fun _ _ => .modify hd)
  rw [hd.1, hd.2, h.scan_eq hc]
  exact .ok _

/-- Where the last epoch is beyond all words, the walk over the votes is the end: its first lookup of
a root overflows. -/
lemma walk_overflows (h : w.PerfectBut net n removed e)
    (hring : 2 * net.slotsPerEpoch.val ≤ net.rootRing.val)
    (hbeyond : Word.max < (e + 2) * net.slotsPerEpoch.val) (hb : About net w b) {α : Type}
    {f : List Credit → Pass α} {Q : α → Bundle → Prop} :
    Pass.Meets (fun e _ => e.IsOverflow) Q ((Bundle.processAttestations >>= f) b) := by
  obtain ⟨herrs, hnone⟩ := h.target_overflows hring hbeyond
  have hwalk : Pass.Meets (fun e _ => e.IsOverflow) (fun _ _ => False)
      (Bundle.processAttestations b) := by
    refine .get_bind ?_
    dsimp only
    rw [hb.1, hb.2]
    exact .lift_bind herrs fun r hr => (hnone r hr).elim
  exact hwalk.bind fun _ _ _ hno => hno.elim

/-- Nothing goes wrong before the walk over the votes. -/
lemma prepare_overflows (h : w.PerfectBut net n removed e)
    (hring : 2 * net.slotsPerEpoch.val ≤ net.rootRing.val)
    (hbeyond : Word.max < (e + 2) * net.slotsPerEpoch.val) (hb : About net w b) :
    Pass.Meets (fun e _ => e.IsOverflow) (fun _ _ => True) (Bundle.prepare b) := by
  have hnone := h.next_blocks_eq_nil hbeyond
  refine .get_bind ?_
  split
  · refine .get_bind ?_
    split
    · exact (processSlashings_calm hnone hb _).bind fun _ _ _ hc =>
        (processSyncAggregates_calm hnone hc).bind fun _ _ _ hd =>
          (h.indexOpportunities_calm hd).bind fun _ _ _ hf =>
            h.walk_overflows hring hbeyond hf
    · exact .pure trivial
  · refine .get_bind ?_
    split
    · exact (processSlashings_calm hnone hb _).bind fun _ _ _ hc =>
        (h.indexOpportunities_calm hc).bind fun _ _ _ hd =>
          (h.walk_overflows hring hbeyond hd).bind fun _ _ _ (hno : False) => hno.elim
    · exact .pure trivial

end Beyond

/-- **Perfect windows are never abandoned.** Whichever votes were removed, a window of a perfect
chain has a bundle unless the arithmetic overflows. -/
theorem errs_build (h : w.PerfectBut net n removed e)
    (hring : 2 * net.slotsPerEpoch.val ≤ net.rootRing.val) (preference : ReportPreference) :
    Calc.Errs Failure.IsOverflow (Bundle.build net preference w) := by
  refine Bundle.errs_build fun phase => ?_
  by_cases hword : (e + 2) * net.slotsPerEpoch.val ≤ Word.max
  · intro err herr
    have hblames := Bundle.failure_blames herr
    cases err with
    | fault f => exact hblames
    | error err => exact h.no_flaw hring hword hblames
  · refine .bind (.fault (Bundle.errs_fresh net phase preference w)) fun b hb => ?_
    have hb := Calc.fault_ok.1 hb
    exact Bundle.errs_prepared (h.prepare_overflows hring (Nat.lt_of_not_le hword)
      ⟨Bundle.network_fresh hb, Bundle.window_fresh hb⟩)

end Window.PerfectBut

end EpochRewards
