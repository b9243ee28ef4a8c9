import EpochRewards.Proofs.Flaws
import EpochRewards.Proofs.FirstInclusions
import EpochRewards.Proofs.Settings

/-!
Why the passes of a window fail.

Whatever the snapshots hold, a pass fails with a fault only where a sum or a product is no word,
and with an error only because of a flaw of the window.
-/

namespace EpochRewards

/-! ### Lookups -/

namespace Snapshot

variable {net : Network} {s : Snapshot} {slot : Slot}

/-- A root is found for a slot that has passed and that the ring has not come around to again. -/
lemma blockRootAt_ok {r : Root} : s.blockRootAt net slot = .ok r ↔
    (slot < s.slot ∧ s.slot ≤ slot + net.rootRing.val) ∧ slot + net.rootRing.val < Word.bound ∧
      s.blockRoots[slot % net.rootRing.val]? = some r := by
  unfold blockRootAt
  dsimp only
  constructor
  · intro h
    split at h
    · next hslot =>
      simp only [Calc.bind_ok, Calc.fault_ok, Word.add_ok] at h
      obtain ⟨_, ⟨hword, rfl⟩, h⟩ := h
      split at h
      · next hring => exact ⟨⟨hslot, hring⟩, hword, Calc.orFail_ok.1 h⟩
      · cases h
    · cases h
  · rintro ⟨⟨hslot, hring⟩, hword, hroot⟩
    rw [if_pos hslot, Word.add_eq hword]
    show (if s.slot ≤ slot + net.rootRing.val then _ else _) = _
    rw [if_pos hring, hroot]
    rfl

/-- Where the end of the ring's turn is no word, a slot that has passed cannot be looked up. -/
lemma blockRootAt_overflow (hslot : slot < s.slot)
    (hword : ¬ slot + net.rootRing.val < Word.bound) :
    s.blockRootAt net slot = .error (.fault .addOverflow) := by
  unfold blockRootAt
  dsimp only
  rw [if_pos hslot, Word.add, if_neg hword]
  rfl

lemma blockRootAt_outOfRange (hword : slot + net.rootRing.val < Word.bound)
    (hout : ¬ (slot < s.slot ∧ s.slot ≤ slot + net.rootRing.val)) :
    s.blockRootAt net slot = .error (.error (.slotOutOfRange slot s.slot)) := by
  unfold blockRootAt
  dsimp only
  split
  · next hslot =>
    rw [Word.add_eq hword]
    show (if s.slot ≤ slot + net.rootRing.val then _ else _) = _
    rw [if_neg fun hring => hout ⟨hslot, hring⟩]
  · rfl

/-- Nothing is wrong with a root that is kept; only the arithmetic can be. -/
lemma no_error_of_kept (hslot : slot < s.slot) (hring : s.slot ≤ slot + net.rootRing.val)
    {r : Root} (hroot : s.blockRoots[slot % net.rootRing.val]? = some r) {err : RewardError} :
    s.blockRootAt net slot ≠ .error (.error err) := by
  by_cases hword : slot + net.rootRing.val < Word.bound
  · rw [blockRootAt_ok.2 ⟨⟨hslot, hring⟩, hword, hroot⟩]
    nofun
  · rw [blockRootAt_overflow hslot hword]
    nofun

end Snapshot

lemma Snapshot.fault_blockRootAt {net : Network} {s : Snapshot} {slot : Slot} {f : Fault}
    (h : s.blockRootAt net slot = .error (.fault f)) : f.IsOverflow := by
  have herrs : Calc.Errs (fun e => ∀ f, e = .fault f → f.IsOverflow) (s.blockRootAt net slot) := by
    unfold Snapshot.blockRootAt
    dsimp only
    split
    · refine .bind (.fault (Word.errs_add.mono ?_)) fun lost _ => ?_
      · rintro f hf _ ⟨⟩
        exact hf
      · split
        · exact .orFail fun _ => nofun
        · rintro _ ⟨⟩
          exact nofun
    · rintro _ ⟨⟩
      exact nofun
  exact herrs _ h f rfl

namespace Duties

lemma no_fault_attesters {d : Duties} {a : Attestation} {f : Fault} :
    d.attesters a ≠ .error (.fault f) := by
  have herrs : Calc.Errs (fun e => e ≠ .fault f) (d.attesters a) :=
    .bind (.orFail fun _ => nofun) fun _ _ => .mapM fun _ _ => .orFail fun _ => nofun
  exact fun h => herrs _ h rfl

lemma mem_of_members? {d : Duties} {slot : Slot} {index : Nat} {members : List ValidatorIndex}
    (h : d.members? slot index = some members) :
    ∃ c ∈ d.committees, c.slot = slot ∧ c.index = index ∧ c.members = members := by
  obtain ⟨c, hc, hm⟩ := Option.map_eq_some_iff.1 h
  have hmem := List.mem_reverse.1 (List.mem_of_find?_eq_some hc)
  have hkey := List.find?_some hc
  simp only [Bool.and_eq_true, beq_iff_eq] at hkey
  exact ⟨c, hmem, hkey.1, hkey.2, hm⟩

/-- Only committee members vote. -/
lemma mem_of_attesters {d : Duties} {a : Attestation} {vs : List ValidatorIndex}
    (h : d.attesters a = .ok vs) : ∀ v ∈ vs, ∃ c ∈ d.committees, v ∈ c.members := by
  simp only [attesters, Calc.bind_ok, Calc.orFail_ok, Calc.mapM_ok] at h
  obtain ⟨members, hm, h⟩ := h
  obtain ⟨c, hc, -, -, rfl⟩ := mem_of_members? hm
  intro v hv
  obtain ⟨i, -, hi⟩ : ∃ i ∈ a.bits.ones, c.members[i]? = some v := by
    generalize a.bits.ones = ones at h
    induction h with
    | nil => cases hv
    | cons hx _ ih =>
      rcases List.mem_cons.1 hv with rfl | hv
      · exact ⟨_, List.mem_cons_self, hx⟩
      · obtain ⟨i, hi, hget⟩ := ih hv
        exact ⟨i, List.mem_cons_of_mem _ hi, hget⟩
  exact ⟨c, hc, List.mem_of_getElem? hi⟩

lemma mem_of_voteSlot? {d : Duties} {v : ValidatorIndex} {slot : Slot}
    (h : d.voteSlot? v = some slot) : ∃ c ∈ d.committees, c.slot = slot := by
  obtain ⟨c, hc, hs⟩ := Option.map_eq_some_iff.1 h
  exact ⟨c, List.mem_reverse.1 (List.mem_of_find?_eq_some hc), hs⟩

end Duties

lemma Snapshot.errs_registered {s : Snapshot} {v : ValidatorIndex}
    {E : Failure RewardError → Prop}
    (h : s.validator? v = none → E (.error (.validatorNotFound v))) :
    Calc.Errs E (s.registered v) := .orFail h

lemma Snapshot.errs_activeBalance (net : Network) (s : Snapshot) :
    Calc.Errs Fault.IsOverflow (s.activeBalance net) :=
  .bind Word.errs_sum fun _ _ => .ok _

lemma Snapshot.lt_of_mem_activeIndices {s : Snapshot} {e : Epoch} {v : ValidatorIndex}
    (h : v ∈ s.activeIndices e) : v < s.validators.length := by
  obtain ⟨⟨x, i⟩, hx, rfl⟩ := List.mem_map.1 h
  have hlt := (List.mem_zipIdx (List.mem_filter.1 hx).1).2.1
  rwa [Nat.zero_add] at hlt

namespace Network

lemma errs_baseRewardPerIncrement (net : Network) (activeBalance : Gwei) :
    Calc.Errs Fault.IsOverflow (net.baseRewardPerIncrement activeBalance) := by
  have hroot : max (Word.sqrt activeBalance) 1 ≠ 0 := by omega
  exact .bind Word.errs_mul fun _ _ => Word.errs_div hroot

lemma errs_phase0BaseReward (net : Network) (effective activeBalance : Gwei) :
    Calc.Errs Fault.IsOverflow (net.phase0BaseReward effective activeBalance) := by
  have hroot : max (Word.sqrt activeBalance) 1 ≠ 0 := by omega
  exact .bind Word.errs_mul fun _ _ => .bind (Word.errs_div hroot) fun _ _ => .ok _

end Network

/-! ### Inclusion opportunities -/

namespace Window

variable {net : Network} {w : Window}

lemma errs_scan {c : Committee} (hc : c ∈ w.prev.duties.committees) {n delay : Nat}
    (hpos : 0 < delay) (hreach : delay + n ≤ net.slotsPerEpoch.val + 1) :
    Calc.Errs (w.Blames net) (w.scan c.slot n delay) := by
  induction n generalizing delay with
  | zero => exact .ok _
  | succ n ih =>
    refine .bind (.fault Word.errs_add) fun inclusion hinc => ?_
    rw [Calc.fault_ok, Word.add_ok] at hinc
    obtain ⟨-, rfl⟩ := hinc
    refine .bind (.orFail fun hnone => ?_) fun block _ => ?_
    · exact .opportunity hc hpos (by omega) hnone
    · split
      · exact .ok _
      · exact ih (by omega) (by omega)

lemma le_of_scan {slot : Slot} {n delay k : Nat} (h : w.scan slot n delay = .ok (some k)) :
    delay ≤ k := by
  induction n generalizing delay with
  | zero => cases h
  | succ n ih =>
    simp only [scan, Calc.bind_ok] at h
    obtain ⟨_, -, block, -, h⟩ := h
    split at h
    · cases h
      exact Nat.le_refl _
    · exact Nat.le_of_succ_le (ih h)

end Window

namespace Bundle

open Pass

variable {net : Network} {w : Window} {slots : List Slot} {b : Bundle}

lemma mem_dutySlots {slot : Slot} :
    slot ∈ dutySlots w ↔ ∃ c ∈ w.prev.duties.committees, c.slot = slot := by
  have hget := Ledger.get?_ofList_const (w.prev.duties.committees.map (·.slot)) () slot
  rw [List.map_map] at hget
  rw [dutySlots, Ledger.mem_keys_iff]
  have hsome : (Ledger.ofList (w.prev.duties.committees.map fun c => (c.slot, ()))).get? slot
      = if slot ∈ w.prev.duties.committees.map (·.slot) then some () else none := hget
  rw [hsome]
  simp

/-- One more slot is known. -/
lemma indexOpportunity_meets {c : Committee} (hc : c ∈ w.prev.duties.committees)
    (hb : b.Stands net w slots) :
    Meets (fun e _ => w.Blames net e) (fun _ d => d.Stands net w (slots ++ [c.slot]))
      (indexOpportunity c.slot b) := by
  refine .get_bind (.lift_bind ?_ fun delay hdelay => .modify ?_)
  · rw [hb.window, hb.network]
    exact Window.errs_scan hc Nat.one_pos (by omega)
  refine ⟨hb.network, hb.window, hb.staked, hb.covered, hb.listed, fun s d => ?_, fun s hs => ?_⟩
  · intro h
    rw [Ledger.get?_insert] at h
    split at h
    · rw [Option.some.inj h] at hdelay
      exact Window.le_of_scan hdelay
    · exact hb.ahead s d h
  · rw [Ledger.get?_insert]
    split
    · rfl
    · next hne =>
      rcases List.mem_append.1 hs with hs | hs
      · exact hb.indexed s hs
      · exact absurd (List.mem_singleton.1 hs) hne

lemma indexOpportunities_meets (hb : b.Stands net w []) :
    Meets (fun e _ => w.Blames net e) (fun _ d => d.Stands net w (dutySlots w))
      (indexOpportunities b) := by
  refine .get_bind ?_
  rw [hb.window]
  refine .forM (J := fun done (d : Bundle) => d.Stands net w done) hb fun done slot hmem d hd => ?_
  have hslot : slot ∈ dutySlots w := hmem.subset (by simp)
  obtain ⟨c, hc, rfl⟩ := mem_dutySlots.1 hslot
  exact indexOpportunity_meets hc hd

/-- The opportunities after the slots of the committees need no lookup in the window. -/
lemma Stands.firstOpportunity (hb : b.Stands net w (dutySlots w)) {v : ValidatorIndex}
    {slot : Slot} (hslot : w.prev.duties.voteSlot? v = some slot) (limit : Nat) :
    ∃ delay, b.firstOpportunity slot limit = .ok delay ∧ ∀ d ∈ delay, 0 < d := by
  have hindexed := hb.indexed slot (mem_dutySlots.2 (Duties.mem_of_voteSlot? hslot))
  obtain ⟨delay, hdelay⟩ := Option.isSome_iff_exists.1 hindexed
  refine ⟨delay.filter (· ≤ limit), ?_, fun d hd => ?_⟩
  · rw [Bundle.firstOpportunity, hdelay]
    rfl
  · have hkept := (Option.filter_eq_some_iff.1 hd).1
    exact hb.ahead slot d (hdelay.trans (congrArg some hkept))

lemma Stands.isFlagPossible (hb : b.Stands net w (dutySlots w)) (v : ValidatorIndex)
    (flag : Flag) : ∃ possible, b.isFlagPossible v flag = .ok possible := by
  unfold Bundle.isFlagPossible isIncludable
  rw [hb.window]
  cases hslot : w.prev.duties.voteSlot? v with
  | none => exact ⟨_, rfl⟩
  | some slot =>
    obtain ⟨delay, hdelay, -⟩ := hb.firstOpportunity hslot (b.delayLimit flag)
    refine ⟨delay.isSome, ?_⟩
    show (b.firstOpportunity slot (b.delayLimit flag) >>= fun x => Pure.pure x.isSome) = _
    rw [hdelay]
    rfl

/-! ### Slashings -/

lemma sound_rewardSlashing {share : ShareRule} (hshare : ∀ r, Calc.Errs Fault.IsOverflow (share r))
    {block : Block} {v : ValidatorIndex} (hblock : block ∈ w.next.proposedBlocks)
    (hv : v ∈ block.slashedIndices) :
    Sound net w slots (fun _ => True) (rewardSlashing share block v) := by
  refine .get_bind fun b hb => .lift_bind ?_ fun validator _ => .fault_bind ?_ fun split _ =>
    (sound_creditSlashing _ _).bind fun _ _ => sound_creditSlashing _ _
  · rw [hb.window]
    exact Snapshot.errs_registered fun hnone => .slashed hblock hv hnone
  · exact (hshare _).bind fun _ _ => .ok _

lemma sound_processSlashings {share : ShareRule}
    (hshare : ∀ r, Calc.Errs Fault.IsOverflow (share r)) :
    Sound net w slots (fun _ => True) (processSlashings share) := by
  refine .get_bind fun b hb => ?_
  rw [hb.window]
  exact .forM fun block hblock => .forM fun v hv => sound_rewardSlashing hshare hblock hv

/-! ### Votes for the first epoch -/

/-- A credit goes to a committee member of the first epoch, in a block of the window. -/
def CreditedIn (w : Window) (x : Credit) : Prop :=
  x.slot ∈ w.listedSlots ∧ ∃ c ∈ w.prev.duties.committees, x.validator ∈ c.members

lemma sound_creditVote {block : Block} {c : Committee} {v : ValidatorIndex}
    (hblock : block.slot ∈ w.listedSlots) (hc : c ∈ w.prev.duties.committees) (hv : v ∈ c.members)
    (delay : Nat) (flags : Flags) :
    Sound net w slots (fun r => ∀ x ∈ r, CreditedIn w x) (creditVote block delay flags v) := by
  refine .get_bind fun b hb => .lift_bind (hb.errs_tally fun h => .uncovered hc hv h) fun t ht =>
    .lift_bind ?_ fun validator _ => (sound_countVote hblock).bind fun _ _ => ?_
  · rw [hb.window]
    exact Snapshot.errs_registered fun hnone => .unregistered hc hv hnone
  · split
    · exact .pure nofun
    · have hplace : v < w.next.validators.length := by
        rw [← hb.covered]
        exact (List.getElem?_eq_some_iff.1 (Calc.orFail_ok.1 ht)).1
      refine (sound_countNewVote hblock).bind fun _ _ => (sound_setTally hplace _).bind fun _ _ =>
        (Sound.forM fun flag _ => sound_addAttesting _ flag).bind fun _ _ => .pure ?_
      rintro x ⟨⟩
      exact ⟨hblock, c, hc, hv⟩

lemma sound_creditAttestation {s : Snapshot} {block : Block} {a : Attestation}
    (hs : s ∈ [w.prev, w.current]) (hblock : block ∈ s.proposedBlocks)
    (ha : a ∈ block.attestations) (canonical : Canonical) :
    Sound net w slots (fun cs => ∀ x ∈ cs, CreditedIn w x)
      (creditAttestation canonical block a) := by
  have hall : s ∈ w.snapshots := by
    simp only [Window.snapshots, List.mem_cons] at hs ⊢
    tauto
  have hlisted := Window.mem_listedSlots hall (List.mem_filter.1 hblock).1
  refine .get_bind fun b hb => ?_
  dsimp only
  rw [hb.window, hb.network]
  split
  · next hcount =>
    have hvotes : s.Votes net w.prev block a := ⟨hblock, ha, hcount.1, hcount.2⟩
    have hattesters : Calc.Errs (w.Blames net) (w.prev.duties.attesters a) :=
      Window.errs_blames (fun f hf => absurd hf Duties.no_fault_attesters)
        fun e he => .attesters hall List.mem_cons_self hvotes he
    have hhead : Calc.Errs (w.Blames net) (w.current.blockRootAt net a.data.slot) :=
      Window.errs_blames (fun f hf => Snapshot.fault_blockRootAt hf)
        fun e he => .head hs hvotes he
    have hcounted : Sound net w slots (fun _ => True)
        (modify fun b => { b with attestationCount := b.attestationCount + 1 }) :=
      .modify fun c hc => hc.update rfl rfl rfl rfl (fun _ hs => hs) rfl
    refine .lift_bind hhead fun head _ => .lift_bind hattesters fun members hmembers =>
      hcounted.bind fun _ _ => ?_
    refine (Sound.mapM (Q := fun r => ∀ x ∈ r, CreditedIn w x) fun v hv => ?_).bind
      fun rs hrs => .pure fun x hx => ?_
    · obtain ⟨c, hc, hmem⟩ := Duties.mem_of_attesters hmembers v hv
      exact sound_creditVote hlisted hc hmem _ _
    · obtain ⟨r, hr, hx⟩ := List.mem_filterMap.1 hx
      exact hrs r hr x hx
  · exact .pure nofun

lemma proposed_of_voting {block : Block} (h : block ∈ votingBlocks w) :
    ∃ s ∈ [w.prev, w.current], block ∈ s.proposedBlocks := by
  obtain ⟨hmem, hp⟩ := mem_votingBlocks.1 h
  rcases List.mem_append.1 hmem with h | h
  · exact ⟨w.prev, by simp, List.mem_filter.2 ⟨h, hp⟩⟩
  · exact ⟨w.current, by simp, List.mem_filter.2 ⟨h, hp⟩⟩

lemma sound_processAttestations :
    Sound net w slots (fun cs => ∀ x ∈ cs, CreditedIn w x) processAttestations := by
  have hflatten (css : List (List Credit)) (h : ∀ cs ∈ css, ∀ x ∈ cs, CreditedIn w x) :
      ∀ x ∈ css.flatten, CreditedIn w x := by
    intro x hx
    obtain ⟨cs, hcs, hx⟩ := List.mem_flatten.1 hx
    exact h cs hcs x hx
  refine .get_bind fun b hb => ?_
  dsimp only
  rw [hb.window, hb.network]
  have htarget : Calc.Errs (w.Blames net) (w.current.blockRootOf net w.prev.epoch) :=
    Window.errs_blames (fun f hf => Snapshot.fault_blockRootAt hf) fun e he => .target he
  refine .lift_bind htarget fun root _ => (Sound.mapM fun block hblock => ?_).bind
    fun css hcss => .pure (hflatten css hcss)
  obtain ⟨s, hs, hproposed⟩ := proposed_of_voting hblock
  exact (Sound.mapM fun a ha => sound_creditAttestation hs hproposed ha _).bind
    fun css hcss => .pure (hflatten css hcss)

end Bundle

open EpochRewards.Bundle Pass

variable {net : Network} {w : Window} {slots : List Slot} {b : Bundle}

/-! ### Passes before Altair -/

namespace Phase0

lemma errs_proposerShare (net : Network) (reward : Gwei) :
    Calc.Errs Fault.IsOverflow (proposerShare net reward) := .ok _

lemma sound_payInclusion {credit : Credit} (h : CreditedIn w credit) :
    Sound net w slots (fun _ => True) (payInclusion credit) := by
  obtain ⟨hslot, c, hc, hv⟩ := h
  unfold payInclusion
  split
  · refine .get_bind fun b hb => .lift_bind ?_ fun base _ =>
      (sound_creditProposer _ _).bind fun _ _ => sound_addManualReward hslot _
    unfold baseReward
    rw [hb.window]
    refine .bind (Snapshot.errs_registered fun hnone => ?_) fun validator _ =>
      .fault (Network.errs_phase0BaseReward _ _ _)
    exact .unregistered hc hv hnone
  · exact .pure trivial

lemma sound_processInclusionDelays :
    Sound net w slots (fun _ => True) processInclusionDelays :=
  sound_processAttestations.bind fun _ hcs => .forM fun _ hx => sound_payInclusion (hcs _ hx)

/-- The active balance is worth an increment at least. -/
lemma increments_ne_zero (hb : b.Stands net w slots) :
    b.currentActiveBalance / b.network.balanceIncrement.val ≠ 0 := by
  have hpos := b.network.balanceIncrement.pos
  have hle : b.network.balanceIncrement.val ≤ b.currentActiveBalance := by
    rw [hb.network]
    exact hb.staked
  exact Nat.pos_iff_ne_zero.1 (Nat.div_pos hle hpos)

lemma errs_flagReward (hb : b.Stands net w (dutySlots w)) (v : ValidatorIndex)
    (base total : Gwei) (flag : Flag) :
    Calc.Errs (w.Blames net) (flagReward b v base total flag) := by
  obtain ⟨possible, hpossible⟩ := hb.isFlagPossible v flag
  unfold flagReward
  rw [hpossible]
  refine .bind (.ok possible) fun _ _ => ?_
  split
  · exact .bind (.fault Word.errs_mul) fun product _ =>
      .bind (.fault (Word.errs_div (increments_ne_zero hb))) fun reward _ => .fault Word.errs_add
  · exact .ok _

lemma errs_delayReward (hb : b.Stands net w (dutySlots w)) (v : ValidatorIndex)
    (base total : Gwei) : Calc.Errs (w.Blames net) (delayReward b v base total) := by
  unfold delayReward
  rw [hb.window]
  split
  · exact .ok _
  · next slot hslot =>
    obtain ⟨delay, hdelay, hpos⟩ := hb.firstOpportunity hslot b.network.slotsPerEpoch.val
    rw [hdelay]
    refine .bind (.ok delay) fun delay' h => ?_
    cases h
    split
    · exact .ok _
    · next d =>
      have hsub : Word.sub base (base / b.network.proposerQuotient.val)
          = .ok (base - base / b.network.proposerQuotient.val) :=
        Word.sub_eq (Nat.div_le_self _ _)
      rw [hsub]
      have hd : d ≠ 0 := Nat.pos_iff_ne_zero.1 (hpos d rfl)
      exact .bind (.ok _) fun rest _ =>
        .bind (.fault (Word.errs_div hd)) fun reward _ => .fault Word.errs_add

lemma sound_processMaxReward {v : ValidatorIndex} (hv : v ∈ w.next.activeIndices w.prev.epoch) :
    Sound net w (dutySlots w) (fun _ => True) (processMaxReward v) := by
  have hlt := Snapshot.lt_of_mem_activeIndices hv
  refine .get_bind fun b hb => .lift_bind (hb.errs_tally fun h => absurd hlt (Nat.not_lt.2 h))
    fun _ _ => .lift_bind ?_ fun reward _ => sound_addAttesterReward hlt _
  refine .bind ?_ fun base _ => .bind ?_ fun total _ => errs_delayReward hb v base total
  · unfold baseReward
    rw [hb.window]
    exact .bind (Snapshot.errs_registered fun hnone => .analysed hv hnone) fun validator _ =>
      .fault (Network.errs_phase0BaseReward _ _ _)
  · exact (Calc.Errs.foldlM (J := fun _ _ => True) trivial fun _ flag _ total _ =>
      ⟨errs_flagReward hb v base total flag, fun _ _ => trivial⟩).1

lemma sound_processMaxRewards :
    Sound net w (dutySlots w) (fun _ => True) processMaxRewards := by
  refine .get_bind fun b hb => ?_
  unfold analysedValidators
  rw [hb.window]
  exact .forM fun v hv => sound_processMaxReward hv

lemma prepare_meets (hb : b.Stands net w []) :
    Meets (fun e _ => w.Blames net e) (fun _ _ => True) (prepare b) := by
  refine .get_bind ?_
  split
  · refine (sound_processSlashings (errs_proposerShare _) b hb).bind fun _ c _ hc =>
      (indexOpportunities_meets hc.2).bind fun _ d _ hd =>
        (sound_processInclusionDelays d hd).bind fun _ e _ he => ?_
    exact (sound_processMaxRewards e he.2).mono fun _ _ _ _ => trivial
  · exact .pure trivial

end Phase0

/-! ### Passes since Altair -/

namespace Altair

lemma errs_proposerShare (reward : Gwei) : Calc.Errs Fault.IsOverflow (proposerShare reward) :=
  .bind Word.errs_mul fun _ _ => .ok _

lemma errs_seatReward (b : Bundle) : Calc.Errs Fault.IsOverflow (seatReward b) :=
  .bind (Network.errs_baseRewardPerIncrement _ _) fun _ _ => .bind Word.errs_mul fun _ _ =>
    .bind Word.errs_mul fun _ _ => .ok _

lemma sound_paySyncAggregate {block : Block} (hslot : block.slot ∈ w.listedSlots)
    (perBit : Gwei) : Sound net w slots (fun _ => True) (paySyncAggregate perBit block) := by
  unfold paySyncAggregate
  split
  · exact .pure trivial
  · exact .fault_bind Word.errs_mul fun _ _ => sound_payProposer hslot _

lemma listed_of_proposed {block : Block} (h : block ∈ w.next.proposedBlocks) :
    block.slot ∈ w.listedSlots :=
  Window.mem_listedSlots (s := w.next) (by simp [Window.snapshots]) (List.mem_filter.1 h).1

lemma sound_processSyncAggregates :
    Sound net w slots (fun _ => True) processSyncAggregates := by
  refine .get_bind fun b hb => .fault_bind (errs_seatReward b) fun _ _ =>
    .fault_bind Word.errs_mul fun _ _ => ?_
  rw [hb.window]
  exact .forM fun block hblock => sound_paySyncAggregate (listed_of_proposed hblock) _

lemma errs_seatHolder {committee : SyncCommittee} {key : PublicKey}
    (hsits : w.next.syncCommittee = some committee) (hkey : key ∈ committee.keys) :
    Calc.Errs (w.Blames net) (seatHolder w.next key) := by
  refine .orFail fun hnone => .seat hsits hkey fun v hv hk => ?_
  rw [Option.map_eq_none_iff, List.find?_eq_none] at hnone
  obtain ⟨i, hi, rfl⟩ := List.getElem_of_mem hv
  have hmem : (w.next.validators[i], i) ∈ w.next.validators.zipIdx.reverse := by
    rw [List.mem_reverse, List.mem_zipIdx_iff_getElem?]
    exact List.getElem?_eq_getElem hi
  exact hnone _ hmem (by simpa using hk)

lemma sound_processSyncCommittee :
    Sound net w slots (fun _ => True) processSyncCommittee := by
  refine .get_bind fun b hb => ?_
  rw [hb.window]
  split
  · exact .pure trivial
  · next committee hsits =>
    refine .fault_bind (errs_seatReward b) fun _ _ => .fault_bind Word.errs_mul fun reward _ =>
      .forM fun key hkey => .get_bind fun c hc => .lift_bind ?_ fun _ _ => sound_creditSync _ _
    rw [hc.window]
    exact errs_seatHolder hsits hkey

lemma mem_of_votedEpoch? {epoch : Epoch} {duties : Duties} {source : Checkpoint}
    (h : votedEpoch? w epoch = some (duties, source)) :
    ∃ t ∈ [w.current, w.next], epoch = t.epoch ∧ duties = t.duties := by
  unfold votedEpoch? at h
  split at h
  · next he =>
    cases h
    exact ⟨w.current, by simp, he, rfl⟩
  · split at h
    · next he =>
      cases h
      exact ⟨w.next, by simp, he, rfl⟩
    · cases h

lemma sound_includeVote {t : Snapshot} {c : Committee} {v : ValidatorIndex} {block : Block}
    (ht : t ∈ [w.current, w.next]) (hc : c ∈ t.duties.committees) (hv : v ∈ c.members)
    (hslot : block.slot ∈ w.listedSlots) (epoch : Epoch) (flags : Flags) (acc : Earned × Nat) :
    Sound net w slots (fun _ => True) (includeVote block epoch flags acc v) := by
  refine .get_bind fun b hb => .lift_bind ?_ fun numerator _ =>
    (sound_countVote hslot).bind fun _ _ => ?_
  · refine (Calc.Errs.foldlM (J := fun _ _ => True) trivial fun _ flag _ n _ =>
      ⟨.bind (.bind ?_ fun validator _ => ?_) fun base _ => ?_, fun _ _ => trivial⟩).1
    · rw [hb.window]
      exact Snapshot.errs_registered fun hnone => .unvalued ht hc hv hnone
    · exact .bind (.fault (Network.errs_baseRewardPerIncrement _ _)) fun _ _ =>
        .fault Word.errs_mul
    · exact .bind (.fault Word.errs_mul) fun _ _ => .fault Word.errs_add
  · split
    · exact (sound_countNewVote hslot).bind fun _ _ => .pure trivial
    · exact .pure trivial

lemma sound_includeAttestation {block : Block} {a : Attestation}
    (hblock : block ∈ w.next.proposedBlocks) (ha : a ∈ block.attestations) (earned : Earned) :
    Sound net w slots (fun _ => True) (includeAttestation block earned a) := by
  have hlisted := listed_of_proposed hblock
  refine .get_bind fun b hb => ?_
  dsimp only
  rw [hb.window, hb.network]
  split
  · exact .pure trivial
  · next duties source hvoted =>
    obtain ⟨t, ht, hepoch, rfl⟩ := mem_of_votedEpoch? hvoted
    have hall : t ∈ w.snapshots := List.mem_cons_of_mem _ ht
    split
    · next hearlier =>
      have hvotes : w.next.Votes net t block a := ⟨hblock, ha, hepoch, hearlier⟩
      have htarget : Calc.Errs (w.Blames net) (w.next.blockRootOf net t.epoch) :=
        Window.errs_blames (fun f hf => Snapshot.fault_blockRootAt hf)
          fun e he => .lastTarget ht hvotes he
      have hhead : Calc.Errs (w.Blames net) (w.next.blockRootAt net a.data.slot) :=
        Window.errs_blames (fun f hf => Snapshot.fault_blockRootAt hf)
          fun e he => .lastHead ht hvotes he
      have hattesters : Calc.Errs (w.Blames net) (t.duties.attesters a) :=
        Window.errs_blames (fun f hf => absurd hf Duties.no_fault_attesters)
          fun e he => .attesters (by simp [Window.snapshots]) hall hvotes he
      rw [hepoch]
      refine .lift_bind htarget fun root _ => .lift_bind hhead fun head _ =>
        .lift_bind hattesters fun members hmembers => (Sound.foldlM fun v hv acc => ?_).bind
          fun _ _ => (sound_payProposer hlisted _).bind fun _ _ => .pure trivial
      obtain ⟨c, hc, hmem⟩ := Duties.mem_of_attesters hmembers v hv
      exact sound_includeVote ht hc hmem hlisted _ _ acc
    · exact .pure trivial

lemma sound_processIncludedVotes :
    Sound net w slots (fun _ => True) processIncludedVotes := by
  refine .get_bind fun b hb => ?_
  rw [hb.window]
  exact (Sound.foldlM fun block hblock earned =>
    .foldlM fun a ha earned => sound_includeAttestation hblock ha earned).bind
      fun _ _ => .pure trivial

lemma errs_flagReward (hb : b.Stands net w (dutySlots w)) (v : ValidatorIndex)
    (base total : Gwei) (flag : Flag) :
    Calc.Errs (w.Blames net) (flagReward b v base total flag) := by
  obtain ⟨possible, hpossible⟩ := hb.isFlagPossible v flag
  unfold flagReward
  rw [hpossible]
  refine .bind (.ok possible) fun _ _ => ?_
  split
  · refine .bind (.fault Word.errs_mul) fun weighted _ => .bind (.fault Word.errs_mul)
      fun numerator _ => .bind (.fault Word.errs_mul) fun denominator hden => ?_
    rw [Calc.fault_ok, Word.mul_ok] at hden
    have hpos : denominator ≠ 0 := by
      rw [← hden.2]
      exact Nat.mul_ne_zero (Phase0.increments_ne_zero hb) (by decide)
    exact .bind (.fault (Word.errs_div hpos)) fun reward _ => .fault Word.errs_add
  · exact .ok _

lemma sound_processMaxReward {v : ValidatorIndex} (hv : v ∈ w.next.activeIndices w.prev.epoch)
    (perIncrement : Gwei) :
    Sound net w (dutySlots w) (fun _ => True) (processMaxReward perIncrement v) := by
  have hlt := Snapshot.lt_of_mem_activeIndices hv
  refine .get_bind fun b hb => .lift_bind (hb.errs_tally fun h => absurd hlt (Nat.not_lt.2 h))
    fun _ _ => .lift_bind ?_ fun validator _ => .fault_bind Word.errs_mul fun base _ =>
      .lift_bind ?_ fun reward _ => sound_addAttesterReward hlt _
  · rw [hb.window]
    exact Snapshot.errs_registered fun hnone => .analysed hv hnone
  · exact (Calc.Errs.foldlM (J := fun _ _ => True) trivial fun _ flag _ total _ =>
      ⟨errs_flagReward hb v base total flag, fun _ _ => trivial⟩).1

lemma sound_processMaxRewards :
    Sound net w (dutySlots w) (fun _ => True) processMaxRewards := by
  refine .get_bind fun b hb => .fault_bind (Network.errs_baseRewardPerIncrement _ _) fun _ _ => ?_
  unfold analysedValidators
  rw [hb.window]
  exact .forM fun v hv => sound_processMaxReward hv _

lemma prepare_meets (hb : b.Stands net w []) :
    Meets (fun e _ => w.Blames net e) (fun _ _ => True) (prepare b) := by
  refine .get_bind ?_
  split
  · refine (sound_processSlashings errs_proposerShare b hb).bind fun _ c _ hc =>
      (sound_processSyncAggregates c hc.2).bind fun _ d _ hd =>
        (indexOpportunities_meets hd.2).bind fun _ e _ he => ?_
    have hrest : Sound net w (dutySlots w) (fun _ => True) (do
        let _ ← processAttestations
        processIncludedVotes
        processMaxRewards
        processSyncCommittee) :=
      sound_processAttestations.bind fun _ _ => sound_processIncludedVotes.bind fun _ _ =>
        sound_processMaxRewards.bind fun _ _ => sound_processSyncCommittee
    exact (hrest e he).mono fun _ _ _ _ => trivial
  · exact .pure trivial

end Altair

namespace Bundle

/-! ### Bundles of a window -/

/-- Opening a bundle only adds up balances. -/
lemma errs_fresh (net : Network) (phase : Phase) (preference : ReportPreference) (w : Window) :
    Calc.Errs Fault.IsOverflow (fresh net phase preference w) :=
  .bind (w.current.errs_activeBalance net) fun _ _ =>
    .bind (w.next.errs_activeBalance net) fun _ _ => .ok _

lemma stands_fresh {phase : Phase} {preference : ReportPreference}
    (h : fresh net phase preference w = .ok b) : b.Stands net w [] := by
  have hlisted := blockTallies_fresh h
  simp only [fresh, Snapshot.activeBalance, Calc.bind_ok, Calc.pure_ok] at h
  obtain ⟨_, ⟨stake, -, rfl⟩, _, -, rfl⟩ := h
  refine ⟨rfl, rfl, Nat.le_max_right _ _, List.length_map _, fun s hs => ?_, fun s d hd => ?_,
    fun s hs => absurd hs List.not_mem_nil⟩
  · rw [hlisted, Window.listedSlots] at *
    simp [hs]
  · rw [Ledger.get?_empty] at hd
    cases hd

lemma prepare_meets (hb : b.Stands net w []) :
    Meets (fun e _ => w.Blames net e) (fun _ _ => True) (prepare b) := by
  refine .get_bind ?_
  split
  · exact Altair.prepare_meets hb
  · exact Phase0.prepare_meets hb

lemma errs_prepared {E : Failure RewardError → Prop}
    (h : Meets (fun e _ => E e) (fun _ _ => True) (prepare b)) : Calc.Errs E b.prepared := by
  intro e he
  unfold prepared at he
  split at he
  · cases he
  · next f c hc =>
    cases he
    have herr : prepare b = .error e c := hc
    rw [herr] at h
    exact h

/-- A bundle is built for some phase. -/
lemma errs_build {E : Failure RewardError → Prop} {preference : ReportPreference}
    (h : ∀ phase, Calc.Errs E (do (← fresh net phase preference w).prepared)) :
    Calc.Errs E (build net preference w) := by
  rw [build_eq]
  exact h _

/-- **Errors are flaws.** Whatever the snapshots hold, the passes fail with an error only because
of a flaw of the window, and with a fault only where a sum or a product is no word. -/
theorem failure_blames {phase : Phase} {preference : ReportPreference} {e : Failure RewardError}
    (h : (do (← fresh net phase preference w).prepared : Calc Bundle) = .error e) :
    w.Blames net e := by
  have hall : Calc.Errs (w.Blames net) (do (← fresh net phase preference w).prepared) :=
    .bind (.fault (errs_fresh net phase preference w)) fun b hb =>
      errs_prepared (prepare_meets (stands_fresh (Calc.fault_ok.1 hb)))
  exact hall e h

end Bundle

end EpochRewards
