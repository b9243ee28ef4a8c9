import EpochRewards.Proofs.Failures
import EpochRewards.Proofs.Gating

/-!
Windows that the passes have nothing to object to.

In a window of three complete snapshots every slot that an inclusion scan visits has a block and
every root that a vote is compared with is in the ring. The arithmetic is the same at both ends of
the two epochs and for epochs of a single slot.
-/

namespace EpochRewards

namespace Snapshot

/-- The snapshot of the last slot of an epoch, with one block for each slot of the epoch, a full
ring of roots and committees that vote in the epoch. -/
structure Complete (net : Network) (e : Epoch) (s : Snapshot) : Prop where
  taken : s.TakenAt net e
  /-- the last slot is a slot of the epoch, that is, a word -/
  within : net.epochOf s.slot = e
  blocks : ∃ slots, net.slotsOf e = .ok slots ∧ (s.blocks.map (·.slot)).Perm slots
  roots : s.blockRoots.length = net.rootRing.val
  duties : ∀ c ∈ s.duties.committees, net.epochOf c.slot = e

namespace Complete

variable {net : Network} {e : Epoch} {s : Snapshot}

/-- The slots of an epoch from its first slot on. -/
lemma bounds_of_epochOf {slot : Slot} (h : net.epochOf slot = e) :
    e * net.slotsPerEpoch.val ≤ slot ∧ slot < (e + 1) * net.slotsPerEpoch.val := by
  have hpos := net.slotsPerEpoch.pos
  rw [← h]
  exact ⟨Nat.div_mul_le_self _ _, by
    rw [Nat.mul_comm]
    exact Nat.lt_mul_div_succ slot hpos⟩

lemma bounds (h : s.Complete net e) :
    e * net.slotsPerEpoch.val ≤ s.slot ∧ s.slot < (e + 1) * net.slotsPerEpoch.val :=
  bounds_of_epochOf h.within

/-- The first slot of the epoch is a word. -/
lemma start_lt (h : s.Complete net e) : e * net.slotsPerEpoch.val < Word.max := by
  have hslot : s.slot = min (Word.satAdd e 1 * net.slotsPerEpoch.val) Word.max - 1 := h.taken.slot
  have hmax : 0 < Word.max := by decide
  have harith (start slot x m : Nat) (hstart : start ≤ slot) (hs : slot = min x m - 1)
      (hm : 0 < m) : start < m := by omega
  exact harith _ _ _ _ h.bounds.1 hslot hmax

lemma startSlot_eq (h : s.Complete net e) : net.startSlot e = e * net.slotsPerEpoch.val :=
  Nat.min_eq_left (Nat.le_of_lt h.start_lt)

/-- The blocks are those of the slots from the first of the epoch up to the snapshot's own. -/
lemma mem_slots (h : s.Complete net e) {slot : Slot} :
    slot ∈ s.blocks.map (·.slot) ↔ e * net.slotsPerEpoch.val ≤ slot ∧ slot ≤ s.slot := by
  obtain ⟨slots, hslots, hperm⟩ := h.blocks
  simp only [Network.slotsOf, Network.endSlot, Calc.bind_ok, Calc.pure_ok, Word.add_ok] at hslots
  obtain ⟨_, ⟨_, ⟨hadd, rfl⟩, rfl⟩, rfl⟩ := hslots
  have hsucc : Word.satAdd e 1 = e + 1 := Nat.min_eq_left (Nat.le_sub_one_of_lt hadd)
  have hslot : s.slot = net.startSlot (e + 1) - 1 := by rw [h.taken.slot, Network.terminalSlot, hsucc]
  have hstop : 0 < net.startSlot (e + 1) :=
    Nat.lt_min.2 ⟨Nat.mul_pos e.succ_pos net.slotsPerEpoch.pos, by decide⟩
  have harith (start last stop x : Nat) (hlast : last = stop - 1) (hstop : 0 < stop)
      (hstart : start ≤ last) : start ≤ x ∧ x < start + (stop - start) ↔ start ≤ x ∧ x ≤ last := by
    omega
  rw [hperm.mem_iff, List.mem_range'_1, h.startSlot_eq]
  exact harith _ _ _ _ hslot hstop h.bounds.1

lemma slot_le (h : s.Complete net e) {block : Block} (hblock : block ∈ s.blocks) :
    block.slot ≤ s.slot :=
  (h.mem_slots.1 (List.mem_map_of_mem hblock)).2

/-- A snapshot followed by one of a later epoch is the one of its epoch's very last slot. -/
lemma last_slot (h : s.Complete net e) {t : Snapshot} (ht : t.Complete net (e + 1)) :
    s.slot = (e + 1) * net.slotsPerEpoch.val - 1 := by
  rw [h.taken.slot]
  exact Network.terminalSlot_eq (Nat.le_of_lt ht.start_lt)

/-- A root that is old enough to be kept and not too old is found. -/
lemma no_error_blockRootAt (h : s.Complete net e) {slot : Slot} (hslot : slot < s.slot)
    (hring : s.slot ≤ slot + net.rootRing.val) {err : RewardError} :
    s.blockRootAt net slot ≠ .error (.error err) := by
  have hposition : slot % net.rootRing.val < s.blockRoots.length := by
    rw [h.roots]
    exact Nat.mod_lt _ net.rootRing.pos
  exact no_error_of_kept hslot hring (List.getElem?_eq_getElem hposition)

end Complete

end Snapshot

/-! ### Well-formed windows -/

/-- Three complete snapshots of consecutive epochs that refer to nothing that is not there. -/
structure Window.WellFormed (net : Network) (w : Window) : Prop where
  prev : w.prev.Complete net w.prev.epoch
  current : w.current.Complete net (w.prev.epoch + 1)
  next : w.next.Complete net (w.prev.epoch + 2)
  registries : w.current.validators.length ≤ w.next.validators.length
  members : ∀ s ∈ w.snapshots, ∀ c ∈ s.duties.committees, ∀ v ∈ c.members,
    v < w.current.validators.length
  active : ∀ v ∈ w.next.activeIndices w.prev.epoch, v < w.current.validators.length
  votes : ∀ s ∈ w.snapshots, ∀ t ∈ w.snapshots, ∀ block ∈ s.proposedBlocks,
    ∀ a ∈ block.attestations, net.epochOf a.data.slot = t.epoch → a.data.slot < block.slot →
      ∃ members ∈ t.duties.members? a.data.slot a.data.index,
        ∀ i ∈ a.bits.ones, i < members.length
  slashed : ∀ block ∈ w.next.proposedBlocks, ∀ v ∈ block.slashedIndices,
    v < w.next.validators.length
  seats : ∀ committee ∈ w.next.syncCommittee, ∀ key ∈ committee.keys,
    ∃ v ∈ w.next.validators, v.key = key

namespace Window.WellFormed

open Snapshot

variable {net : Network} {w : Window} {err : RewardError}

lemma validator?_ne_none {s : Snapshot} {v : ValidatorIndex} (h : v < s.validators.length) :
    s.validator? v ≠ none := by
  rw [Snapshot.validator?, List.getElem?_eq_getElem h]
  exact Option.some_ne_none _

/-- Every slot of the first two epochs has a block. -/
lemma blockAt?_ne_none (h : w.WellFormed net) {slot : Slot}
    (hfirst : w.prev.epoch * net.slotsPerEpoch.val ≤ slot)
    (hlast : slot < (w.prev.epoch + 2) * net.slotsPerEpoch.val) : w.blockAt? slot ≠ none := by
  have hlisted : ∃ s ∈ w.snapshots, slot ∈ s.blocks.map (·.slot) := by
    have hprev := h.prev.last_slot h.current
    have hcurrent := h.current.last_slot h.next
    by_cases hs : slot ≤ w.prev.slot
    · exact ⟨w.prev, by simp [snapshots], h.prev.mem_slots.2 ⟨hfirst, hs⟩⟩
    · refine ⟨w.current, by simp [snapshots], h.current.mem_slots.2 ⟨?_, ?_⟩⟩
      · have harith (x p m : Nat) (hp : p = m - 1) (hx : ¬ x ≤ p) : m ≤ x := by omega
        exact harith _ _ _ hprev hs
      · have harith (x p m : Nat) (hp : p = m - 1) (hx : x < m) : x ≤ p := by omega
        exact harith _ _ _ hcurrent hlast
  obtain ⟨s, hs, hslot⟩ := hlisted
  obtain ⟨block, hblock, rfl⟩ := List.mem_map.1 hslot
  intro hnone
  have hfind := List.findSome?_eq_none_iff.1 hnone s hs
  simpa using List.find?_eq_none.1 hfind block hblock

/-- The scan after a slot of the first epoch stays within the first two. -/
lemma opportunity (h : w.WellFormed net) {c : Committee} (hc : c ∈ w.prev.duties.committees)
    {delay : Nat} (hreach : delay ≤ net.slotsPerEpoch.val) : w.blockAt? (c.slot + delay) ≠ none := by
  obtain ⟨hfirst, hlast⟩ := Complete.bounds_of_epochOf (h.prev.duties c hc)
  have hepochs : (w.prev.epoch + 2) * net.slotsPerEpoch.val
      = (w.prev.epoch + 1) * net.slotsPerEpoch.val + net.slotsPerEpoch.val := by ring
  refine h.blockAt?_ne_none (Nat.le_trans hfirst (Nat.le_add_right _ _)) ?_
  rw [hepochs]
  exact Nat.add_lt_add_of_lt_of_le hlast hreach

/-! ### No flaw -/

/-- The ring of a snapshot has the roots of its own epoch and of the one before. -/
lemma no_error_root (hring : 2 * net.slotsPerEpoch.val ≤ net.rootRing.val) {s : Snapshot}
    {e : Epoch} (hs : s.Complete net (e + 1)) {slot : Slot}
    (hfirst : e * net.slotsPerEpoch.val ≤ slot) (hslot : slot < s.slot) :
    s.blockRootAt net slot ≠ .error (.error err) := by
  have hepochs : (e + 1 + 1) * net.slotsPerEpoch.val
      = e * net.slotsPerEpoch.val + 2 * net.slotsPerEpoch.val := by ring
  have hlast := hs.bounds.2
  rw [hepochs] at hlast
  have harith (last first spe ring slot : Nat) (hl : last < first + spe) (hr : spe ≤ ring)
      (hf : first ≤ slot) : last ≤ slot + ring := by omega
  exact hs.no_error_blockRootAt hslot (harith _ _ _ _ _ hlast hring hfirst)

lemma prev_lt_current (h : w.WellFormed net) : w.prev.slot < w.current.slot :=
  Nat.lt_of_lt_of_le h.prev.bounds.2 h.current.bounds.1

lemma no_error_target (h : w.WellFormed net)
    (hring : 2 * net.slotsPerEpoch.val ≤ net.rootRing.val) :
    w.current.blockRootOf net w.prev.epoch ≠ .error (.error err) := by
  rw [blockRootOf, h.prev.startSlot_eq]
  exact no_error_root hring h.current (Nat.le_refl _)
    (Nat.lt_of_le_of_lt h.prev.bounds.1 h.prev_lt_current)

lemma no_error_head (h : w.WellFormed net)
    (hring : 2 * net.slotsPerEpoch.val ≤ net.rootRing.val) {s : Snapshot} {block : Block}
    {a : Attestation} (hs : s ∈ [w.prev, w.current]) (hv : s.Votes net w.prev block a) :
    w.current.blockRootAt net a.data.slot ≠ .error (.error err) := by
  have hblock : block ∈ s.blocks := List.mem_of_mem_filter hv.proposed
  have hle : block.slot ≤ w.current.slot := by
    rcases List.mem_pair.1 hs with rfl | rfl
    · exact Nat.le_trans (h.prev.slot_le hblock) (Nat.le_of_lt h.prev_lt_current)
    · exact h.current.slot_le hblock
  exact no_error_root hring h.current (Complete.bounds_of_epochOf hv.epoch).1
    (Nat.lt_of_lt_of_le hv.earlier hle)

section Last

variable {t : Snapshot} {block : Block} {a : Attestation}

/-- Votes in the last blocks come from the last two epochs. -/
lemma last_bounds (h : w.WellFormed net) (ht : t ∈ [w.current, w.next])
    (hv : w.next.Votes net t block a) :
    (w.prev.epoch + 1) * net.slotsPerEpoch.val ≤ t.epoch * net.slotsPerEpoch.val ∧
      t.epoch * net.slotsPerEpoch.val ≤ a.data.slot ∧ a.data.slot < w.next.slot := by
  have hepoch : w.prev.epoch + 1 ≤ t.epoch := by
    rcases List.mem_pair.1 ht with rfl | rfl
    · exact Nat.le_of_eq h.current.taken.epoch.symm
    · rw [h.next.taken.epoch]
      exact Nat.le_succ _
  have hblock : block ∈ w.next.blocks := List.mem_of_mem_filter hv.proposed
  exact ⟨Nat.mul_le_mul_right _ hepoch, (Complete.bounds_of_epochOf hv.epoch).1,
    Nat.lt_of_lt_of_le hv.earlier (h.next.slot_le hblock)⟩

lemma no_error_lastHead (h : w.WellFormed net)
    (hring : 2 * net.slotsPerEpoch.val ≤ net.rootRing.val) (ht : t ∈ [w.current, w.next])
    (hv : w.next.Votes net t block a) :
    w.next.blockRootAt net a.data.slot ≠ .error (.error err) := by
  obtain ⟨hepoch, hfirst, hlast⟩ := h.last_bounds ht hv
  exact no_error_root hring h.next (Nat.le_trans hepoch hfirst) hlast

lemma no_error_lastTarget (h : w.WellFormed net)
    (hring : 2 * net.slotsPerEpoch.val ≤ net.rootRing.val) (ht : t ∈ [w.current, w.next])
    (hv : w.next.Votes net t block a) :
    w.next.blockRootOf net t.epoch ≠ .error (.error err) := by
  obtain ⟨hepoch, hfirst, hlast⟩ := h.last_bounds ht hv
  have hstart : net.startSlot t.epoch = t.epoch * net.slotsPerEpoch.val := by
    rcases List.mem_pair.1 ht with rfl | rfl
    · rw [h.current.taken.epoch, h.current.startSlot_eq]
    · rw [h.next.taken.epoch, h.next.startSlot_eq]
  rw [blockRootOf, hstart]
  exact no_error_root hring h.next hepoch (Nat.lt_of_le_of_lt hfirst hlast)

end Last

lemma no_error_attesters (h : w.WellFormed net) {s t : Snapshot} {block : Block} {a : Attestation}
    (hs : s ∈ w.snapshots) (ht : t ∈ w.snapshots) (hv : s.Votes net t block a) :
    t.duties.attesters a ≠ .error (.error err) := by
  obtain ⟨members, hmembers, hbits⟩ :=
    h.votes s hs t ht block hv.proposed a hv.included hv.epoch hv.earlier
  have herrs : Calc.Errs (fun e => e ≠ .error err) (t.duties.attesters a) := by
    unfold Duties.attesters
    dsimp only
    rw [Option.mem_def.1 hmembers]
    refine .bind (.ok members) fun _ hm => .mapM fun i hi => ?_
    cases hm
    rw [List.getElem?_eq_getElem (hbits i hi)]
    exact .ok _
  exact fun hfail => herrs _ hfail rfl

/-- The passes have nothing to object to. -/
theorem no_flaw (h : w.WellFormed net) (hring : 2 * net.slotsPerEpoch.val ≤ net.rootRing.val) :
    ¬ w.Flaw net err := by
  intro hflaw
  cases hflaw with
  | slashed proposed reported missing =>
    exact validator?_ne_none (h.slashed _ proposed _ reported) missing
  | opportunity duty positive reach missing => exact h.opportunity duty reach missing
  | target missing => exact h.no_error_target hring missing
  | head lists votes missing => exact h.no_error_head hring lists votes missing
  | lastTarget voted votes missing => exact h.no_error_lastTarget hring voted votes missing
  | lastHead voted votes missing => exact h.no_error_lastHead hring voted votes missing
  | attesters lists voted votes missing => exact h.no_error_attesters lists voted votes missing
  | uncovered duty member missing =>
    have hlt := h.members w.prev (by simp [snapshots]) _ duty _ member
    exact absurd (Nat.lt_of_lt_of_le hlt h.registries) (Nat.not_lt.2 missing)
  | unregistered duty member missing =>
    exact validator?_ne_none (h.members w.prev (by simp [snapshots]) _ duty _ member) missing
  | unvalued voted duty member missing =>
    have hlt := h.members _ (List.mem_cons_of_mem _ voted) _ duty _ member
    exact validator?_ne_none (Nat.lt_of_lt_of_le hlt h.registries) missing
  | analysed active missing => exact validator?_ne_none (h.active _ active) missing
  | seat sits holds missing =>
    obtain ⟨v, hv, hk⟩ := h.seats _ sits _ holds
    exact missing v hv hk

/-- **Well-formed windows are never abandoned.** If the ring of roots spans two epochs, neither
the passes before Altair nor those since fail for a well-formed window unless the arithmetic
overflows, and so does no bundle of it. -/
theorem only_overflows (h : w.WellFormed net)
    (hring : 2 * net.slotsPerEpoch.val ≤ net.rootRing.val) (preference : ReportPreference) :
    (∀ b, Bundle.openPhase0 net preference w = .ok b →
        ∀ e c, Phase0.prepare b = .error e c → e.IsOverflow) ∧
      (∀ b, Bundle.openAltair net preference w = .ok b →
        ∀ e c, Altair.prepare b = .error e c → e.IsOverflow) ∧
      ∀ e, Bundle.build net preference w = .error e → e.IsOverflow := by
  have hblames (e : Failure RewardError) (he : w.Blames net e) : e.IsOverflow := by
    cases e with
    | fault f => exact he
    | error e => exact h.no_flaw hring he
  refine ⟨fun b hb e c hc => hblames e ?_, fun b hb e c hc => hblames e ?_, fun e he => hblames e ?_⟩
  · have hmeets := Phase0.prepare_meets (Bundle.stands_fresh hb)
    rw [hc] at hmeets
    exact hmeets
  · have hmeets := Altair.prepare_meets (Bundle.stands_fresh hb)
    rw [hc] at hmeets
    exact hmeets
  · unfold Bundle.build at he
    dsimp only at he
    split at he
    · exact Bundle.failure_blames he
    · exact Bundle.failure_blames he

/-- Three epochs of four slots, the third slot of each without a block. Every block has the votes
of the slot before it and a report of a slashed validator. -/
def votingWindow : Window :=
  let vote (slot : Slot) : VoteData := ⟨slot, 0, .zero, ⟨0, .zero⟩, ⟨slot / 4, .zero⟩⟩
  let block (slot : Slot) : Block :=
    { Block.missed slot 0 with
      proposed := slot % 4 != 2
      attestations := [⟨.ofBits [true, true], vote (slot - 1)⟩]
      syncAggregate := some ⟨.ofBits [true, false]⟩
      proposerSlashings := [⟨⟨slot, 1⟩, ⟨slot, 1⟩⟩] }
  let validator : Validator := ⟨.zero, 32, false, 0, 0, farFuture, farFuture⟩
  let snapshot (epoch : Epoch) : Snapshot :=
    let slots := List.range' (4 * epoch) 4
    { Snapshot.placeholder epoch (4 * epoch + 3) with
      stateRoot := .ofNat 32 1
      validators := [validator, validator]
      balances := [32, 32]
      blockRoots := List.replicate 16 .zero
      syncCommittee := some ⟨[.zero, .zero]⟩
      blocks := slots.map block
      duties := ⟨slots.map (⟨·, 0, [0, 1]⟩), []⟩ }
  ⟨snapshot 1, snapshot 2, snapshot 3⟩

theorem votingWindow_only_overflows :
    votingWindow.WellFormed .fourSlots ∧
      2 * Network.fourSlots.slotsPerEpoch.val ≤ Network.fourSlots.rootRing.val ∧
      (∀ b, Bundle.openPhase0 .fourSlots .strictlyPositive votingWindow = .ok b →
          ∀ e c, Phase0.prepare b = .error e c → e.IsOverflow) ∧
        (∀ b, Bundle.openAltair .fourSlots .strictlyPositive votingWindow = .ok b →
          ∀ e c, Altair.prepare b = .error e c → e.IsOverflow) ∧
        ∀ e, Bundle.build .fourSlots .strictlyPositive votingWindow = .error e →
          e.IsOverflow := by
  have hcomplete (epoch : Epoch) (s : Snapshot) (htaken : s.TakenAt .fourSlots epoch)
      (hwithin : Network.fourSlots.epochOf s.slot = epoch)
      (hslots : Network.fourSlots.slotsOf epoch = .ok (s.blocks.map (·.slot)))
      (hroots : s.blockRoots.length = 16)
      (hduties : ∀ c ∈ s.duties.committees, Network.fourSlots.epochOf c.slot = epoch) :
      s.Complete .fourSlots epoch :=
    ⟨htaken, hwithin, ⟨_, hslots, .refl _⟩, hroots, hduties⟩
  have hwell : votingWindow.WellFormed .fourSlots := by
    refine ⟨hcomplete 1 _ ⟨rfl, rfl, rfl⟩ rfl rfl rfl (by decide),
      hcomplete 2 _ ⟨rfl, rfl, rfl⟩ rfl rfl rfl (by decide),
      hcomplete 3 _ ⟨rfl, rfl, rfl⟩ rfl rfl rfl (by decide), by decide, by decide, by decide, by decide,
      by decide, ?_⟩
    rintro _ ⟨⟩ key hkey
    rcases List.mem_pair.1 hkey with rfl | rfl
    · exact ⟨_, List.mem_cons_self, rfl⟩
    · exact ⟨_, List.mem_cons_self, rfl⟩
  have hring : 2 * Network.fourSlots.slotsPerEpoch.val ≤ Network.fourSlots.rootRing.val := by decide
  exact ⟨hwell, hring, hwell.only_overflows hring .strictlyPositive⟩

end Window.WellFormed

end EpochRewards
