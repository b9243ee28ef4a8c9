import EpochRewards.Chain
import EpochRewards.Proofs.Gating
import EpochRewards.Proofs.Scale

/-!
What a perfect chain consists of.

The parts of a chain are computed with arithmetic that may overflow. Where a chain could be built,
they are what the numbers of their slots and epochs say. The same is said of a chain from which some
votes were removed: all that differs are single bits of the aggregates.
-/

namespace EpochRewards

/-! ### Slots -/

namespace Network

variable {net : Network} {e : Epoch} {slots : List Slot}

lemma slotsOf_ok (h : net.slotsOf e = .ok slots) :
    e + 1 ≤ Word.max ∧
      slots = List.range' (net.startSlot e) (net.startSlot (e + 1) - net.startSlot e) := by
  simp only [slotsOf, endSlot, Calc.bind_ok, Calc.pure_ok, Word.add_ok] at h
  obtain ⟨_, ⟨_, ⟨hword, rfl⟩, rfl⟩, rfl⟩ := h
  exact ⟨Nat.le_sub_one_of_lt hword, rfl⟩

/-- The slots of an epoch, of which the last one may have fewer than others. -/
lemma mem_slotsOf (h : net.slotsOf e = .ok slots) {slot : Slot} :
    slot ∈ slots ↔ net.epochOf slot = e ∧ slot < Word.max := by
  have hpos := net.slotsPerEpoch.pos
  have hle : e * net.slotsPerEpoch.val ≤ (e + 1) * net.slotsPerEpoch.val :=
    Nat.mul_le_mul_right _ e.le_succ
  have hepoch : net.epochOf slot = e ↔
      e * net.slotsPerEpoch.val ≤ slot ∧ slot < (e + 1) * net.slotsPerEpoch.val := by
    rw [epochOf, Nat.div_eq_iff hpos, Nat.add_mul, Nat.one_mul]
    exact and_congr_right fun _ => by rw [← Nat.lt_add_one_iff, Nat.sub_add_cancel]; omega
  have harith (first stop m slot : Nat) (hle : first ≤ stop) :
      min first m ≤ slot ∧ slot < min first m + (min stop m - min first m) ↔
        (first ≤ slot ∧ slot < stop) ∧ slot < m := by omega
  rw [(slotsOf_ok h).2, List.mem_range'_1, hepoch]
  exact harith _ _ _ _ hle

end Network

/-! ### Parts by their numbers -/

namespace Chain

/-- The root of the block of a slot. -/
def rootAt (slot : Slot) : Root := .ofNat 32 (slot + 1)

def keyOf (v : ValidatorIndex) : PublicKey := .ofNat 48 (v + 1)

/-- The checkpoint of an epoch that starts with a block. -/
def checkpointAt (net : Network) (epoch : Epoch) : Checkpoint :=
  ⟨epoch, rootAt (net.startSlot epoch)⟩

/-- Every validator is active from genesis on. -/
def validatorAt (v : ValidatorIndex) : Validator :=
  ⟨keyOf v, validatorBalance, false, 0, 0, farFuture, farFuture⟩

def committeeAt (net : Network) (n : Nat) (slot : Slot) : Committee :=
  ⟨slot, 0, committeeMembers net n slot⟩

/-- What the committee of a slot votes for. -/
def voteAt (net : Network) (slot : Slot) : VoteData :=
  ⟨slot, 0, rootAt slot, checkpointAt net (net.epochOf slot - 1),
    checkpointAt net (net.epochOf slot)⟩

/-- Validators and the epochs from which their votes were removed. -/
abbrev Removals := List (ValidatorIndex × Epoch)

/-- The votes of a committee that are left. -/
def aggregateAt (net : Network) (n : Nat) (removed : Removals) (slot : Slot) : Attestation where
  bits := .ofBits ((committeeMembers net n slot).map fun v => (v, net.epochOf slot) ∉ removed)
  data := voteAt net slot

/-- The votes that a block includes: those of the slot before it, if it has a committee. -/
def votesIn (net : Network) (n : Nat) (removed : Removals) : Slot → List Attestation
  | 0 => []
  | slot + 1 =>
    if committeeMembers net n slot = [] then [] else [aggregateAt net n removed slot]

variable {net : Network} {n : Nat} {removed : Removals} {slot : Slot} {v : ValidatorIndex}
  {e : Epoch}

lemma blockRoot_ok {r : Root} (h : blockRoot slot = .ok r) : slot < Word.max ∧ r = rootAt slot := by
  simp only [blockRoot, Calc.bind_ok, Calc.pure_ok, Word.add_ok] at h
  obtain ⟨_, ⟨hword, rfl⟩, rfl⟩ := h
  exact ⟨Nat.lt_sub_of_add_lt hword, rfl⟩

lemma justifiedAt_ok {c : Checkpoint} (h : justifiedAt net e = .ok c) :
    net.startSlot (e - 1) < Word.max ∧ c = checkpointAt net (e - 1) := by
  simp only [justifiedAt, Calc.bind_ok, Calc.pure_ok] at h
  obtain ⟨r, hr, rfl⟩ := h
  obtain ⟨hword, rfl⟩ := blockRoot_ok hr
  exact ⟨hword, rfl⟩

lemma validatorKey_ok {key : PublicKey} (h : validatorKey v = .ok key) : key = keyOf v := by
  simp only [validatorKey, Calc.bind_ok, Calc.pure_ok, Word.add_ok] at h
  obtain ⟨_, ⟨-, rfl⟩, rfl⟩ := h
  rfl

lemma mem_committeeMembers : v ∈ committeeMembers net n slot ↔
    v < n ∧ v % net.slotsPerEpoch.val = slot % net.slotsPerEpoch.val := by
  rw [committeeMembers, List.mem_filter, List.mem_range, beq_iff_eq]

lemma nodup_committeeMembers (net : Network) (n : Nat) (slot : Slot) :
    (committeeMembers net n slot).Nodup := List.nodup_range.filter _

/-- A validator votes in one slot of an epoch. -/
lemma eq_of_mem_committeeMembers {slot' : Slot} (h : v ∈ committeeMembers net n slot)
    (h' : v ∈ committeeMembers net n slot') (hepoch : net.epochOf slot' = net.epochOf slot) :
    slot' = slot := by
  have hmod : slot' % net.slotsPerEpoch.val = slot % net.slotsPerEpoch.val :=
    (mem_committeeMembers.1 h').2.symm.trans (mem_committeeMembers.1 h).2
  calc slot' = net.slotsPerEpoch.val * net.epochOf slot' + slot' % net.slotsPerEpoch.val :=
        (Nat.div_add_mod _ _).symm
    _ = net.slotsPerEpoch.val * net.epochOf slot + slot % net.slotsPerEpoch.val := by
        rw [hepoch, hmod]
    _ = slot := Nat.div_add_mod _ _

/-- In every epoch there is a slot in which a validator votes. -/
lemma exists_mem_committeeMembers (net : Network) {n v : Nat} (e : Nat) (hv : v < n) :
    ∃ slot, net.epochOf slot = e ∧ v ∈ committeeMembers net n slot := by
  have hpos := net.slotsPerEpoch.pos
  have hrest : v % net.slotsPerEpoch.val < net.slotsPerEpoch.val := Nat.mod_lt _ hpos
  refine ⟨net.slotsPerEpoch.val * e + v % net.slotsPerEpoch.val, ?_, ?_⟩
  · rw [Network.epochOf, Nat.mul_add_div hpos, Nat.div_eq_of_lt hrest, Nat.add_zero]
  · rw [mem_committeeMembers, Nat.mul_add_mod, Nat.mod_mod]
    exact ⟨hv, rfl⟩

lemma mem_votesIn {a : Attestation} {later : Slot} (h : a ∈ votesIn net n removed later) :
    ∃ slot, later = slot + 1 ∧ committeeMembers net n slot ≠ [] ∧
      a = aggregateAt net n removed slot := by
  cases later with
  | zero => cases h
  | succ slot =>
    rw [votesIn] at h
    split at h
    · cases h
    · next hne => exact ⟨slot, rfl, hne, List.mem_singleton.1 h⟩

/-! ### The ring of roots -/

/-- How far a position is from that of the oldest entry, going around once at most. -/
lemma add_mod_sub_mod {ring oldest age : Nat} (h : age < ring) :
    ((oldest + age) % ring + ring - oldest % ring) % ring = age := by
  have hrest := Nat.mod_lt oldest (Nat.zero_lt_of_lt h)
  rw [Nat.add_mod, Nat.mod_eq_of_lt h]
  rcases Nat.lt_or_ge (oldest % ring + age) ring with hsmall | hwrap
  · have hturn : oldest % ring + age + ring - oldest % ring = age + ring := by omega
    rw [Nat.mod_eq_of_lt hsmall, hturn, Nat.add_mod_right, Nat.mod_eq_of_lt h]
  · have hturn : oldest % ring + age - ring + ring - oldest % ring = age := by omega
    have hlt : oldest % ring + age - ring < ring := by omega
    rw [Nat.mod_eq_sub_mod hwrap, Nat.mod_eq_of_lt hlt, hturn, Nat.mod_eq_of_lt h]

/-- What the position of a slot of the last turn has, if the slot has passed. -/
lemma ringRoot_turn {ring now age : Nat} (hage : age < ring) :
    ringRoot ring now ((now - ring + age) % ring) =
      if now - ring + age < now then blockRoot (now - ring + age) else .ok .zero := by
  show (if _ < now then _ else _) = _
  rw [add_mod_sub_mod hage]
  rfl

/-- The root of a slot is found where its remainder says, for as long as one turn. -/
lemma ringRoot_mod {ring now slot : Nat} (hslot : slot < now) (hring : now ≤ slot + ring) :
    ringRoot ring now (slot % ring) = blockRoot slot := by
  obtain ⟨age, rfl⟩ : ∃ age, slot = now - ring + age := Nat.exists_eq_add_of_le (by omega)
  rw [ringRoot_turn (by omega), if_pos hslot]

end Chain

open Chain

/-! ### Blocks and snapshots -/

/-- A block of a perfect chain, with the votes that were not removed. -/
structure Block.PerfectBut (net : Network) (n : Nat) (removed : Removals) (b : Block) : Prop where
  proposed : b.proposed = true
  votes : b.attestations = votesIn net n removed b.slot
  unslashed : b.slashedIndices = []
  unwithdrawn : b.withdrawals = []
  unreported : b.report = none
  seated : ∀ aggregate ∈ b.syncAggregate, aggregate.bits.bits.length = net.syncCommitteeSize.val

/-- The snapshot of an epoch of a perfect chain, with the votes that were not removed. -/
structure Snapshot.PerfectBut (net : Network) (n : Nat) (removed : Removals) (e : Epoch)
    (s : Snapshot) : Prop where
  taken : s.TakenAt net e
  /-- the epoch before starts with a slot that is a word -/
  reached : net.startSlot (e - 1) < Word.max
  validators : s.validators = (List.range n).map validatorAt
  balances : s.balances = List.replicate n (validatorBalance + balanceGrowth * (e - 1))
  ring : ∀ slot < s.slot, s.slot ≤ slot + net.rootRing.val →
    s.blockRoots[slot % net.rootRing.val]? = some (rootAt slot)
  justified : s.currentJustified = checkpointAt net (e - 1)
  seats : ∀ committee ∈ s.syncCommittee, committee.keys.length = net.syncCommitteeSize.val
  holders : ∀ committee ∈ s.syncCommittee, ∀ key ∈ committee.keys, ∃ v < n, key = keyOf v
  listed : net.slotsOf e = .ok (s.blocks.map (·.slot))
  blocks : ∀ b ∈ s.blocks, b.PerfectBut net n removed
  /-- the committees that have members -/
  committees : ∀ c, c ∈ s.duties.committees ↔
    c.slot ∈ s.blocks.map (·.slot) ∧ c = committeeAt net n c.slot ∧ c.members ≠ []

namespace Chain

variable {net : Network} {n : Nat} {slot : Slot} {e : Epoch}

lemma buildAttestations_ok {votes : List Attestation}
    (h : buildAttestations net n slot = .ok votes) : votes = votesIn net n [] slot := by
  cases slot with
  | zero => exact (Calc.pure_ok.1 h).symm
  | succ slot =>
    rw [buildAttestations] at h
    rw [votesIn]
    split at h
    · next hnone =>
      rw [if_pos hnone]
      exact (Calc.pure_ok.1 h).symm
    · next hsome =>
      rw [if_neg hsome]
      simp only [buildAttestation, Calc.bind_ok, Calc.pure_ok] at h
      obtain ⟨_, ⟨_, hroot, _, hsource, _, htarget, rfl⟩, rfl⟩ := h
      rw [(blockRoot_ok hroot).2, (justifiedAt_ok hsource).2, (blockRoot_ok htarget).2,
        ← List.map_const]
      simp [aggregateAt, voteAt, checkpointAt]

lemma buildBlock_ok {b : Block} (h : buildBlock net n slot = .ok b) :
    b.slot = slot ∧ b.PerfectBut net n [] := by
  simp only [buildBlock, Calc.bind_ok, Calc.pure_ok] at h
  obtain ⟨votes, hvotes, proposer, -, rfl⟩ := h
  refine ⟨rfl, rfl, buildAttestations_ok hvotes, rfl, rfl, rfl, fun aggregate haggregate => ?_⟩
  dsimp only at haggregate
  split at haggregate
  · cases haggregate
    exact List.length_replicate
  · cases haggregate

lemma buildValidator_ok {v : ValidatorIndex} {x : Validator} (h : buildValidator v = .ok x) :
    x = validatorAt v := by
  simp only [buildValidator, Calc.bind_ok, Calc.pure_ok] at h
  obtain ⟨key, hkey, rfl⟩ := h
  rw [validatorKey_ok hkey]
  rfl

/-- The seats go around among the validators. -/
lemma buildSyncCommittee_ok {committee : SyncCommittee}
    (h : buildSyncCommittee net n = .ok committee) :
    committee.keys.length = net.syncCommitteeSize.val ∧
      ∀ key ∈ committee.keys, ∃ v < n, key = keyOf v := by
  simp only [buildSyncCommittee, Calc.bind_ok, Calc.pure_ok, Calc.mapM_ok] at h
  obtain ⟨-, -, keys, hkeys, rfl⟩ := h
  refine ⟨by rw [← hkeys.length_eq, List.length_range], fun key hkey => ?_⟩
  obtain ⟨i, hi, rfl⟩ := List.getElem_of_mem hkey
  obtain ⟨v, hv, hkey⟩ := hkeys.get (by rwa [hkeys.length_eq]) hi
  unfold Word.rem at hv
  split at hv
  · cases hv
  · next hn =>
    cases hv
    exact ⟨_, Nat.mod_lt _ (Nat.pos_of_ne_zero hn), validatorKey_ok hkey⟩

lemma buildDuties_ok {slots : List Slot} {d : Duties} (hslots : net.slotsOf e = .ok slots)
    (h : buildDuties net n e = .ok d) (c : Committee) :
    c ∈ d.committees ↔ c.slot ∈ slots ∧ c = committeeAt net n c.slot ∧ c.members ≠ [] := by
  simp only [buildDuties, Calc.bind_ok, Calc.pure_ok] at h
  obtain ⟨_, hslots', _, -, rfl⟩ := h
  obtain rfl := Except.ok.inj (hslots.symm.trans hslots')
  simp only [List.mem_filter, List.mem_map, Bool.not_eq_true', List.isEmpty_eq_false_iff]
  constructor
  · rintro ⟨⟨slot, hslot, rfl⟩, hne⟩
    exact ⟨hslot, rfl, hne⟩
  · rintro ⟨hslot, hc, hne⟩
    exact ⟨⟨c.slot, hslot, hc.symm⟩, hne⟩

lemma isZero_stateRoot {e : Nat} (h : 1000 + e < Word.bound) :
    (Digest.ofNat 32 (1000 + e)).isZero = false := by
  have hlt : 1000 + e < 2 ^ (8 * 32) := Nat.lt_trans h (by decide)
  rw [Digest.isZero, Digest.ofNat, BitVec.toNat_ofNat, Nat.mod_eq_of_lt hlt]
  exact beq_false_of_ne (by omega)

lemma getElem?_of_roots {ring now : Nat} {roots : List Root}
    (h : List.Forall₂ (fun i r => ringRoot ring now i = .ok r) (List.range ring) roots)
    {slot : Nat} (hslot : slot < now) (hring : now ≤ slot + ring) :
    roots[slot % ring]? = some (rootAt slot) := by
  have hi : slot % ring < (List.range ring).length := by
    rw [List.length_range]
    exact Nat.mod_lt _ (by omega)
  have hroot := h.get hi (by rwa [← h.length_eq])
  rw [List.get_eq_getElem, List.getElem_range, ringRoot_mod hslot hring] at hroot
  rw [List.getElem?_eq_getElem (by rwa [← h.length_eq]), ← (blockRoot_ok hroot).2]
  rfl

lemma balanceAt_ok {balance : Gwei} (h : balanceAt e = .ok balance) :
    balance = validatorBalance + balanceGrowth * (e - 1) := by
  simp only [balanceAt, Calc.bind_ok, Word.add_ok, Word.mul_ok] at h
  obtain ⟨_, ⟨-, rfl⟩, -, rfl⟩ := h
  rfl

lemma buildBlocks_ok {slots : List Slot} {blocks : List Block}
    (h : List.Forall₂ (fun slot b => buildBlock net n slot = .ok b) slots blocks) :
    slots = blocks.map (·.slot) ∧ ∀ b ∈ blocks, b.PerfectBut net n [] := by
  induction h with
  | nil => exact ⟨rfl, nofun⟩
  | cons hb _ ih =>
    obtain ⟨hslot, hperfect⟩ := buildBlock_ok hb
    exact ⟨by rw [List.map_cons, hslot, ← ih.1], List.forall_mem_cons.2 ⟨hperfect, ih.2⟩⟩

lemma buildValidators_ok {vs : List ValidatorIndex} {validators : List Validator}
    (h : List.Forall₂ (fun v x => buildValidator v = .ok x) vs validators) :
    validators = vs.map validatorAt := by
  induction h with
  | nil => rfl
  | cons hv _ ih => rw [List.map_cons, buildValidator_ok hv, ← ih]

/-- A snapshot that could be built is perfect. -/
lemma perfect_buildSnapshot {s : Snapshot} (h : buildSnapshot net n e = .ok s) :
    s.PerfectBut net n [] e := by
  unfold buildSnapshot at h
  extract_lets slot ring at h
  simp -zeta only [Calc.bind_ok, Calc.mapM_ok] at h
  obtain ⟨-, -, roots, hroots, -, -, validators, hvalidators, h⟩ := h
  extract_lets rest at h
  obtain ⟨sync, hseats, h⟩ : ∃ sync : Option SyncCommittee,
      (∀ committee ∈ sync, committee.keys.length = net.syncCommitteeSize.val ∧
        ∀ key ∈ committee.keys, ∃ v < n, key = keyOf v) ∧ rest sync = .ok s := by
    split at h
    · obtain ⟨sync, hsync, h⟩ := Calc.bind_ok.1 h
      obtain ⟨committee, hcommittee, rfl⟩ := Calc.map_ok.1 hsync
      exact ⟨_, by rintro _ ⟨⟩; exact buildSyncCommittee_ok hcommittee, h⟩
    · exact ⟨none, nofun, h⟩
  simp only [rest, Calc.bind_ok, Calc.pure_ok, Calc.mapM_ok, Word.add_ok] at h
  obtain ⟨_, ⟨hstate, rfl⟩, balance, hbalance, _, -, justified, hjustified, -, -, slots, hslots,
    blocks, hblocks, duties, hduties, rfl⟩ := h
  obtain ⟨rfl, hall⟩ := buildBlocks_ok hblocks
  obtain ⟨hreached, rfl⟩ := justifiedAt_ok hjustified
  exact {
    taken := ⟨rfl, rfl, isZero_stateRoot hstate⟩
    reached := hreached
    validators := buildValidators_ok hvalidators
    balances := by rw [balanceAt_ok hbalance]
    ring := fun _ hslot hring => getElem?_of_roots hroots hslot hring
    justified := rfl
    seats := fun committee hcommittee => (hseats committee hcommittee).1
    holders := fun committee hcommittee => (hseats committee hcommittee).2
    listed := hslots
    blocks := hall
    committees := buildDuties_ok hslots hduties }

/-- Every state of the chain is perfect in its epoch, but for the votes that were removed. -/
structure PerfectBut (net : Network) (n last : Nat) (removed : Removals) (c : Chain) : Prop where
  network : c.network = net
  length : c.states.length = last + 1
  state : ∀ (e : Epoch) (s : Snapshot), c.states[e]? = some s → s.PerfectBut net n removed e

/-- The states of a chain are those that are built for its epochs. -/
lemma buildSnapshot_of_build {last : Nat} {c : Chain} (h : Chain.build net n last = .ok c)
    {s : Snapshot} (hs : c.states[e]? = some s) : buildSnapshot net n e = .ok s := by
  simp only [Chain.build, Calc.bind_ok, Calc.pure_ok, Calc.mapM_ok] at h
  obtain ⟨-, -, states, hstates, rfl⟩ := h
  obtain ⟨he, hs⟩ := List.getElem?_eq_some_iff.1 hs
  have hbuilt := hstates.get (by rwa [hstates.length_eq]) he
  rwa [List.get_eq_getElem, List.getElem_range, List.get_eq_getElem, hs] at hbuilt

/-- A chain that could be built is perfect. -/
lemma perfect_build {last : Nat} {c : Chain} (h : Chain.build net n last = .ok c) :
    c.PerfectBut net n last [] := by
  have hstate (e : Epoch) (s : Snapshot) (hs : c.states[e]? = some s) :=
    perfect_buildSnapshot (buildSnapshot_of_build h hs)
  simp only [Chain.build, Calc.bind_ok, Calc.pure_ok, Calc.mapM_ok] at h
  obtain ⟨-, -, states, hstates, rfl⟩ := h
  exact ⟨rfl, by rw [← hstates.length_eq, List.length_range], hstate⟩

/-! ### Chains that cannot be built -/

/-- The arithmetic overflows, or there is no space for the parts. -/
def Exceeds (f : Fault) : Prop := f.IsOverflow ∨ f = .spaceExceeded

/-- Sizes of chains of which all parts can be counted. -/
structure Roomy (net : Network) (n last : Nat) : Prop where
  usual : net.Usual
  validators : n ≤ 2 ^ 21
  epochs : last < 2 ^ 45

/-- The epochs of a roomy chain are far from the largest word, and so are its slots. -/
lemma Roomy.start_le {last : Nat} (h : Roomy net n last) (he : e ≤ last + 1) :
    e * net.slotsPerEpoch.val ≤ 2 ^ 61 :=
  calc e * net.slotsPerEpoch.val ≤ 2 ^ 45 * 2 ^ 16 :=
        Nat.mul_le_mul (Nat.le_trans he h.epochs) h.usual.epoch
    _ = 2 ^ 61 := by norm_num

lemma Roomy.slot_le {last : Nat} (h : Roomy net n last) (he : net.epochOf slot ≤ last) :
    slot ≤ 2 ^ 61 := by
  have hlast : slot < (net.epochOf slot + 1) * net.slotsPerEpoch.val :=
    (Nat.div_lt_iff_lt_mul net.slotsPerEpoch.pos).1 (Nat.lt_succ_self _)
  exact Nat.le_trans (Nat.le_of_lt hlast) (h.start_le (Nat.succ_le_succ he))

lemma Roomy.terminalSlot_le {last : Nat} (h : Roomy net n last) (he : e ≤ last) :
    net.terminalSlot e ≤ 2 ^ 61 :=
  calc net.terminalSlot e ≤ Word.satAdd e 1 * net.slotsPerEpoch.val :=
        Nat.le_trans (Nat.sub_le _ 1) (Nat.min_le_left _ _)
    _ ≤ (e + 1) * net.slotsPerEpoch.val := Nat.mul_le_mul_right _ (Nat.min_le_left _ _)
    _ ≤ 2 ^ 61 := h.start_le (Nat.succ_le_succ he)

/-- How a part of a chain fails: it exceeds something, and the chain is not roomy. -/
def Outgrows (net : Network) (n last : Nat) (f : Fault) : Prop := Exceeds f ∧ ¬ Roomy net n last

section Outgrows

open Calc

variable {last a b : Nat}

lemma outgrows_add (h : Roomy net n last → a + b < Word.bound) :
    Errs (Outgrows net n last) (Word.add a b) := fun f hf =>
  ⟨.inl (Word.errs_add f hf), fun hroomy =>
    Word.errs_add_of_lt (E := fun _ => False) (h hroomy) f hf⟩

lemma outgrows_mul (h : Roomy net n last → a * b < Word.bound) :
    Errs (Outgrows net n last) (Word.mul a b) := fun f hf =>
  ⟨.inl (Word.errs_mul f hf), fun hroomy =>
    Word.errs_mul_of_lt (E := fun _ => False) (h hroomy) f hf⟩

lemma errs_rem {E : Fault → Prop} (hb : 0 < b) : Errs E (Word.rem a b) := by
  rw [Word.rem, if_neg (Nat.pos_iff_ne_zero.1 hb)]
  exact .ok _

lemma outgrows_space {size count : Nat} (h : Roomy net n last → size * count < Word.signedBound) :
    Errs (Outgrows net n last) (Capacity.space size count) := by
  intro f hf
  unfold Capacity.space at hf
  split at hf
  · cases hf
  · next hno =>
    cases hf
    exact ⟨.inr rfl, fun hroomy => hno (h hroomy)⟩

lemma outgrows_blockRoot {slot : Nat} (h : Roomy net n last → slot ≤ 2 ^ 61) :
    Errs (Outgrows net n last) (blockRoot slot) := by
  refine .bind (outgrows_add fun hroomy => ?_) fun _ _ => .ok _
  have hslot := h hroomy
  unfold Word.bound
  omega

lemma outgrows_validatorKey {v : Nat} (hv : v < n) :
    Errs (Outgrows net n last) (validatorKey v) := by
  refine .bind (outgrows_add fun hroomy => ?_) fun _ _ => .ok _
  have hn := hroomy.validators
  unfold Word.bound
  omega

lemma outgrows_balanceAt {e : Nat} (he : e ≤ last) : Errs (Outgrows net n last) (balanceAt e) := by
  have hgrowth (hroomy : Roomy net n last) : balanceGrowth * (e - 1) ≤ 10000 * 2 ^ 45 :=
    Nat.mul_le_mul_left _ (Nat.le_trans (Nat.sub_le e 1)
      (Nat.le_trans he (Nat.le_of_lt hroomy.epochs)))
  have hword {m : Nat} (hm : m ≤ 10000 * 2 ^ 45) :
      m < Word.bound ∧ 32000000000 + m < Word.bound := by
    unfold Word.bound
    omega
  refine .bind (outgrows_mul fun hroomy => (hword (hgrowth hroomy)).1) fun growth hok =>
    outgrows_add fun hroomy => ?_
  rw [← (Word.mul_ok.1 hok).2]
  exact (hword (hgrowth hroomy)).2

/-- The start of an epoch of the chain. -/
lemma outgrows_startRoot {e : Nat} (he : e ≤ last) :
    Errs (Outgrows net n last) (blockRoot (net.startSlot e)) :=
  outgrows_blockRoot fun hroomy =>
    Nat.le_trans (Nat.min_le_left _ _) (hroomy.start_le (Nat.le_succ_of_le he))

lemma outgrows_justifiedAt {e : Nat} (he : e ≤ last) :
    Errs (Outgrows net n last) (justifiedAt net e) :=
  .bind (outgrows_startRoot (Nat.le_trans (Nat.sub_le e 1) he)) fun _ _ => .ok _

lemma outgrows_slotsOf {e : Nat} (he : e ≤ last) : Errs (Outgrows net n last) (net.slotsOf e) := by
  refine .bind (.bind (outgrows_add fun hroomy => ?_) fun _ _ => .ok _) fun _ _ => .ok _
  have hlast := hroomy.epochs
  unfold Word.bound
  omega

lemma outgrows_ringRoot (he : e ≤ last) (ring i : Nat) :
    Errs (Outgrows net n last) (ringRoot ring (net.terminalSlot e) i) := by
  unfold ringRoot
  dsimp only
  split
  · next hpast =>
    exact outgrows_blockRoot fun hroomy =>
      Nat.le_trans (Nat.le_of_lt hpast) (hroomy.terminalSlot_le he)
  · exact .ok _

lemma outgrows_buildAttestations (hslot : net.epochOf slot ≤ last) :
    Errs (Outgrows net n last) (buildAttestations net n slot) := by
  cases slot with
  | zero => exact .ok _
  | succ slot =>
    have he : net.epochOf slot ≤ last :=
      Nat.le_trans (Nat.div_le_div_right (Nat.le_succ slot)) hslot
    rw [buildAttestations]
    split
    · exact .ok _
    · exact .bind (.bind (outgrows_blockRoot fun hroomy => hroomy.slot_le he) fun _ _ =>
        .bind (outgrows_justifiedAt he) fun _ _ =>
          .bind (outgrows_startRoot he) fun _ _ => .ok _) fun _ _ => .ok _

variable (hn : 0 < n)
include hn

lemma outgrows_buildBlock (hslot : net.epochOf slot ≤ last) :
    Errs (Outgrows net n last) (buildBlock net n slot) :=
  .bind (outgrows_buildAttestations hslot) fun _ _ => .bind (errs_rem hn) fun _ _ => .ok _

lemma outgrows_buildSyncCommittee : Errs (Outgrows net n last) (buildSyncCommittee net n) := by
  refine .bind (outgrows_space fun hroomy => ?_) fun _ _ =>
    .bind (.mapM fun seat _ => .bind (errs_rem hn) fun v hv => outgrows_validatorKey ?_)
      fun _ _ => .ok _
  · have hseats := hroomy.usual.committee
    unfold keySize Word.signedBound
    omega
  · rw [Word.rem, if_neg (Nat.pos_iff_ne_zero.1 hn)] at hv
    cases hv
    exact Nat.mod_lt _ hn

lemma outgrows_buildDuties (he : e ≤ last) : Errs (Outgrows net n last) (buildDuties net n e) :=
  .bind (outgrows_slotsOf he) fun _ _ =>
    .bind (.mapM fun _ _ => .bind (errs_rem hn) fun _ _ => .ok _) fun _ _ => .ok _

lemma outgrows_buildSnapshot (he : e ≤ last) :
    Errs (Outgrows net n last) (buildSnapshot net n e) := by
  have hring : Errs (Outgrows net n last) (Capacity.space rootSize net.rootRing.val) := by
    refine outgrows_space fun hroomy => ?_
    have hring := hroomy.usual.ring
    unfold rootSize Word.signedBound
    omega
  have hvalidators : Errs (Outgrows net n last) (Capacity.space validatorSize n) := by
    refine outgrows_space fun hroomy => ?_
    have hn := hroomy.validators
    unfold validatorSize Word.signedBound
    omega
  have hblocks : Errs (Outgrows net n last) (Capacity.space blockSize net.slotsPerEpoch.val) := by
    refine outgrows_space fun hroomy => ?_
    have hslots := hroomy.usual.epoch
    unfold blockSize Word.signedBound
    omega
  have hstate : Errs (Outgrows net n last) (Word.add 1000 e) := by
    refine outgrows_add fun hroomy => ?_
    have hlast := hroomy.epochs
    have harith (e last : Nat) (he : e ≤ last) (hlast : last < 2 ^ 45) :
        1000 + e < Word.bound := by
      unfold Word.bound
      omega
    exact harith _ _ he hlast
  refine .bind hring fun _ _ => .bind (.mapM fun _ _ => outgrows_ringRoot he _ _) fun _ _ =>
    .bind hvalidators fun _ _ => .bind (.mapM fun v hv =>
      .bind (outgrows_validatorKey (List.mem_range.1 hv)) fun _ _ => .ok _) fun _ _ => ?_
  extract_lets rest
  have hrest (sync : Option SyncCommittee) : Errs (Outgrows net n last) (rest sync) :=
    .bind hstate fun _ _ => .bind (outgrows_balanceAt he) fun _ _ =>
      .bind (outgrows_justifiedAt (Nat.le_trans (Nat.sub_le e 1) he)) fun _ _ =>
        .bind (outgrows_justifiedAt he) fun _ _ => .bind hblocks fun _ _ =>
          .bind (outgrows_slotsOf he) fun slots hslots =>
            .bind (.mapM fun slot hslot => outgrows_buildBlock hn
              (Nat.le_trans (Nat.le_of_eq ((Network.mem_slotsOf hslots).1 hslot).1) he)) fun _ _ =>
                .bind (outgrows_buildDuties hn he) fun _ _ => .ok _
  split
  · exact .bind (.map (outgrows_buildSyncCommittee hn)) fun sync _ => hrest sync
  · exact hrest none

lemma outgrows_build (last : Nat) : Errs (Outgrows net n last) (Chain.build net n last) := by
  refine .bind (outgrows_space fun hroomy => ?_) fun _ _ =>
    .bind (.mapM fun e he => outgrows_buildSnapshot hn
      (Nat.le_of_lt_succ (List.mem_range.1 he))) fun _ _ => .ok _
  have hlast := hroomy.epochs
  unfold snapshotSize Word.signedBound
  omega

/-- A chain with validators is built unless its arithmetic overflows or it takes too much space. -/
lemma exceeds_build (last : Nat) : Errs Exceeds (Chain.build net n last) :=
  (outgrows_build hn last).mono fun _ hf => hf.1

/-- A roomy chain with validators is built. -/
lemma exists_build (h : Roomy net n last) : ∃ c, Chain.build net n last = .ok c := by
  cases hbuild : Chain.build net n last with
  | error f => exact absurd h (outgrows_build hn last f hbuild).2
  | ok c => exact ⟨c, rfl⟩

end Outgrows

end Chain

end EpochRewards
