import EpochRewards.Proofs.Accumulation
import EpochRewards.Proofs.Components
import EpochRewards.Proofs.Failures

/-!
What validators earned was within reach.

The earned side of the accounts walks aggregates in the order of their inclusion, the possible side
scans the blocks after a slot. The block that includes a vote first is one that the scan of its slot
reaches, if it reaches no other before. So a maximum has every component that was earned.
-/

namespace EpochRewards

/-! ### Scans -/

namespace Window

variable {w : Window} {block : Block} {slot : Slot}

/-- The snapshots of a window are searched like one list of blocks. -/
lemma blockAt?_eq (w : Window) (slot : Slot) :
    w.blockAt? slot = w.blocks.find? (·.slot == slot) := List.find?_flatMap.symm

/-- Of blocks in slots of their own each is found in its slot. -/
lemma blockAt?_of_mem (hslots : (w.blocks.map (·.slot)).Nodup) (hmem : block ∈ w.blocks) :
    w.blockAt? block.slot = some block := by
  rw [blockAt?_eq]
  cases hfound : w.blocks.find? (·.slot == block.slot) with
  | none =>
    have hmiss := List.find?_eq_none.1 hfound block hmem
    exact absurd (beq_self_eq_true block.slot) hmiss
  | some x =>
    have hx : x ∈ w.blocks := List.mem_of_find?_eq_some hfound
    have hslot : x.slot = block.slot := by simpa using List.find?_some hfound
    rw [List.inj_on_of_nodup_map hslots hx hmem hslot]

/-- A scan goes no further than a proposed block. -/
lemma scan_reaches {n delay d : Nat} {found : Option Nat} (h : w.scan slot n delay = .ok found)
    (hblock : w.blockAt? (slot + d) = some block) (hp : block.proposed = true)
    (hle : delay ≤ d) (hlt : d < delay + n) : ∃ k, found = some k ∧ delay ≤ k ∧ k ≤ d := by
  induction n generalizing delay with
  | zero => omega
  | succ n ih =>
    simp only [scan, Calc.bind_ok, Calc.fault_ok, Word.add_ok, Calc.orFail_ok] at h
    obtain ⟨_, ⟨-, rfl⟩, x, hx, h⟩ := h
    split at h
    · exact ⟨delay, (Calc.pure_ok.1 h).symm, Nat.le_refl _, hle⟩
    · next hmissed =>
      have hne : delay ≠ d := by
        rintro rfl
        rw [hblock] at hx
        exact hmissed (Option.some.inj hx ▸ hp)
      obtain ⟨k, hk, hdk, hkd⟩ := ih h (by omega) (by omega)
      exact ⟨k, hk, by omega, hkd⟩

lemma mem_blocks_of_beforeNext (h : block ∈ w.blocksBeforeNext) : block ∈ w.blocks := by
  show block ∈ w.prev.blocks ++ (w.current.blocks ++ (w.next.blocks ++ []))
  rw [← List.append_assoc]
  exact List.mem_append_left _ h

end Window

/-! ### Committees -/

namespace Duties

variable {d : Duties} {a : Attestation} {v : ValidatorIndex} {c : Committee}

/-- No validator is a member of two committees. -/
def Exclusive (d : Duties) : Prop :=
  ∀ c ∈ d.committees, ∀ c' ∈ d.committees, ∀ v ∈ c.members, v ∈ c'.members → c = c'

/-- Those behind an aggregate are members of a committee of its slot. -/
lemma committee_of_mem_voters (h : v ∈ d.voters a) :
    ∃ c ∈ d.committees, c.slot = a.data.slot ∧ v ∈ c.members := by
  obtain ⟨i, -, hi⟩ := List.mem_filterMap.1 h
  cases hmembers : d.members? a.data.slot a.data.index with
  | none =>
    rw [hmembers] at hi
    cases hi
  | some members =>
    obtain ⟨c, hc, hslot, -, rfl⟩ := mem_of_members? hmembers
    rw [hmembers] at hi
    exact ⟨c, hc, hslot, List.mem_of_getElem? hi⟩

lemma Exclusive.voteSlot? (h : d.Exclusive) (hc : c ∈ d.committees) (hv : v ∈ c.members) :
    d.voteSlot? v = some c.slot := by
  unfold Duties.voteSlot?
  cases hfound : d.committees.reverse.find? fun c => c.members.contains v with
  | none =>
    have hmiss := List.find?_eq_none.1 hfound c (List.mem_reverse.2 hc)
    exact absurd (List.contains_iff_mem.2 hv) hmiss
  | some c' =>
    have hc' : c' ∈ d.committees := List.mem_reverse.1 (List.mem_of_find?_eq_some hfound)
    have hv' : v ∈ c'.members := by simpa using List.find?_some hfound
    rw [Option.map_some, h c hc c' hc' v hv hv']

end Duties

namespace Bundle

variable {b c : Bundle} {slots : List Slot} {u : Unit}

/-! ### Indexed slots -/

/-- The bundle `b` with the scans of these slots. -/
structure Indexed (b : Bundle) (slots : List Slot) (c : Bundle) : Prop where
  frame : c = { b with opportunities := c.opportunities }
  found : ∀ slot ∈ slots, ∃ delay, b.window.scan slot b.network.slotsPerEpoch.val 1 = .ok delay ∧
    c.opportunities.get? slot = some delay
  others : ∀ slot ∉ slots, c.opportunities.get? slot = b.opportunities.get? slot

lemma indexOpportunity_ok {slot : Slot} (h : indexOpportunity slot b = .ok u c) :
    ∃ delay, b.window.scan slot b.network.slotsPerEpoch.val 1 = .ok delay ∧
      c = { b with opportunities := b.opportunities.insert slot delay } := by
  simp only [indexOpportunity, Pass.bind_ok, Pass.get_ok, Pass.lift_ok, Pass.modify_ok] at h
  obtain ⟨_, _, ⟨rfl, rfl⟩, delay, _, ⟨hdelay, rfl⟩, rfl⟩ := h
  exact ⟨delay, hdelay, rfl⟩

lemma forM_indexOpportunity_ok (h : slots.forM indexOpportunity b = .ok u c) :
    Indexed b slots c := by
  induction slots generalizing b with
  | nil =>
    rw [Pass.forM_nil_ok] at h
    subst h
    exact ⟨rfl, fun _ hslot => (nomatch hslot), fun _ _ => rfl⟩
  | cons slot slots ih =>
    rw [Pass.forM_cons_ok] at h
    obtain ⟨_, hslot, h⟩ := h
    obtain ⟨delay, hdelay, rfl⟩ := indexOpportunity_ok hslot
    obtain ⟨hframe, hfound, hothers⟩ := ih h
    have hget (s : Slot) : (b.opportunities.insert slot delay).get? s
        = if s = slot then some delay else b.opportunities.get? s := Ledger.get?_insert _ _ _ _
    refine ⟨hframe, fun s hs => ?_, fun s hs => ?_⟩
    · by_cases hmem : s ∈ slots
      · exact hfound s hmem
      · obtain rfl : s = slot := (List.mem_cons.1 hs).resolve_right hmem
        exact ⟨delay, hdelay, (hothers s hmem).trans ((hget s).trans (if_pos rfl))⟩
    · obtain ⟨hne, hmem⟩ := not_or.1 (mt List.mem_cons.2 hs)
      exact (hothers s hmem).trans ((hget s).trans (if_neg hne))

lemma indexOpportunities_ok (h : indexOpportunities b = .ok u c) :
    Indexed b (dutySlots b.window) c := forM_indexOpportunity_ok h

/-! ### Earned flags -/

lemma delayLimit_le_epoch {flag : Flag} (hflag : flag ≠ .head) (b : Bundle) :
    b.delayLimit flag ≤ b.network.slotsPerEpoch.val := by
  unfold delayLimit
  split
  · cases flag with
    | source => exact Nat.le_trans (Nat.le_mul_self _) (Word.sqrt_spec _).1
    | target => exact Nat.le_refl _
    | head => exact absurd rfl hflag
  · exact Nat.le_refl _

/-- A vote earns a flag within the flag's limit and within an epoch. -/
lemma delay_le_of_has {data : VoteData} {delay : Nat} {canonical : Canonical} {head : Root}
    {flag : Flag} (h : (b.voteFlags data delay canonical head).has flag = true) :
    delay ≤ b.delayLimit flag ∧ delay ≤ b.network.slotsPerEpoch.val := by
  cases flag with
  | source =>
    obtain ⟨-, hsource⟩ := of_decide_eq_true h
    exact ⟨hsource, hsource.trans (delayLimit_le_epoch (by decide) b)⟩
  | target =>
    obtain ⟨-, -, htarget⟩ := of_decide_eq_true h
    exact ⟨htarget, htarget.trans (delayLimit_le_epoch (by decide) b)⟩
  | head =>
    -- the limit for the head alone may reach beyond an epoch
    obtain ⟨⟨-, -, htarget⟩, -, hhead⟩ := of_decide_eq_true h
    exact ⟨hhead, htarget.trans (delayLimit_le_epoch (by decide) b)⟩

/-- A vote is included after its slot, which is that of its committee. -/
lemma slot_of_inclusion (hexclusive : b.window.prev.duties.Exclusive) {i : Inclusion}
    (hi : i ∈ b.inclusions) :
    b.window.prev.duties.voteSlot? i.validator = some i.vote.slot ∧
      i.vote.slot ∈ dutySlots b.window ∧ i.vote.slot + i.delay = i.block.slot ∧ 0 < i.delay := by
  obtain ⟨-, a, -, hcounts, hvote, hvoter⟩ := mem_inclusions.1 hi
  obtain ⟨c, hc, hslot, hv⟩ := Duties.committee_of_mem_voters hvoter
  have hlt : a.data.slot < i.block.slot := (of_decide_eq_true hcounts).2
  rw [hvote] at hslot hlt
  refine ⟨?_, mem_dutySlots.2 ⟨c, hc, hslot⟩, Nat.add_sub_of_le hlt.le, Nat.sub_pos_of_lt hlt⟩
  rw [hexclusive.voteSlot? hc hv, hslot]

/-- What a validator is credited with is what its first vote earned. -/
lemma Walked.credited {n : Nat} {is : List Inclusion} (hw : Walked b n is c)
    (hunvoted : ∀ t ∈ b.tallies, t = .zero) {v : ValidatorIndex} {t : ValidatorTally}
    (ht : c.tallies[v]? = some t) :
    (∃ i ∈ is, i.validator = v ∧ t = ⟨0, some i.delay, b.flagsOf i⟩) ∨ t = .zero := by
  rw [hw.tally, Option.map_eq_some_iff] at ht
  obtain ⟨t₀, ht₀, rfl⟩ := ht
  have hzero := hunvoted t₀ (List.mem_of_getElem? ht₀)
  unfold settle
  cases hfound : is.find? (·.validator = v) with
  | none => exact .inr hzero
  | some i =>
    have hv : i.validator = v := by simpa using List.find?_some hfound
    refine .inl ⟨i, List.mem_of_find?_eq_some hfound, hv, ?_⟩
    rw [hzero]
    rfl

/-! ### Opportunities -/

/-- The bundle `c` after the votes of a window were walked from the bundle `b`, in which the slots of
all committees are indexed. -/
structure Explored (w : Window) (b c : Bundle) : Prop where
  window : b.window = w
  walked : Walked b b.aggregates.length b.inclusions c
  fresh : ∀ t ∈ b.tallies, t = .zero
  indexed : ∀ slot ∈ dutySlots w, ∃ delay,
    w.scan slot b.network.slotsPerEpoch.val 1 = .ok delay ∧
      b.opportunities.get? slot = some delay

section Explored

variable {w : Window} {v : ValidatorIndex} {t : ValidatorTally}

lemma explored_of_fresh {net : Network} {phase : Phase} {preference : ReportPreference}
    {a : Bundle} {u : Unit} {credits : List Credit} (ha : fresh net phase preference w = .ok a)
    (hb : indexOpportunities a = .ok u b) (hc : processAttestations b = .ok credits c) :
    Explored w b c := by
  obtain ⟨-, -, hwindow, -⟩ := fresh_ok ha
  obtain ⟨hframe, hfound, -⟩ := indexOpportunities_ok hb
  have htallies : b.tallies = a.tallies := by rw [hframe]
  have hnetwork : b.network = a.network := by rw [hframe]
  have hzero : ∀ t ∈ b.tallies, t = .zero := htallies ▸ fresh_tallies ha
  refine ⟨by rw [hframe, hwindow], ?_, hzero, ?_⟩
  · exact (processAttestations_ok (fun t ht => by rw [hzero t ht]; rfl) hc).2.2.1
  · rw [hwindow] at hfound
    rw [hnetwork]
    exact hfound

/-- The first proposed block after the slot of a vote is no later than the one that includes it. -/
lemma Explored.opportunity (h : Explored w b c) (hslots : (w.blocks.map (·.slot)).Nodup)
    (hexclusive : w.prev.duties.Exclusive) {i : Inclusion} (hi : i ∈ b.inclusions)
    (hepoch : i.delay ≤ b.network.slotsPerEpoch.val) :
    ∃ slot k, w.prev.duties.voteSlot? i.validator = some slot ∧ 0 < k ∧ k ≤ i.delay ∧
      ∀ limit, i.delay ≤ limit → c.firstOpportunity slot limit = .ok (some k) := by
  obtain ⟨⟨hmem, hp⟩, -⟩ := mem_inclusions.1 hi
  rw [← h.window] at hexclusive
  obtain ⟨hvote, hduty, hslot, hpos⟩ := slot_of_inclusion hexclusive hi
  rw [h.window] at hmem hvote hduty
  obtain ⟨found, hscan, hfound⟩ := h.indexed _ hduty
  have hblock : w.blockAt? (i.vote.slot + i.delay) = some i.block := by
    rw [hslot]
    exact Window.blockAt?_of_mem hslots (Window.mem_blocks_of_beforeNext hmem)
  obtain ⟨k, rfl, hk, hkd⟩ := Window.scan_reaches hscan hblock hp hpos (by omega)
  have hget : c.opportunities.get? i.vote.slot = some (some k) := by
    rw [h.walked.frame]
    exact hfound
  refine ⟨i.vote.slot, k, hvote, hk, hkd, fun limit hlimit => ?_⟩
  rw [firstOpportunity, hget]
  show Except.ok ((some k).filter (· ≤ limit)) = _
  rw [Option.filter_some, if_pos (decide_eq_true (hkd.trans hlimit))]

lemma Explored.isFlagPossible (h : Explored w b c) (hslots : (w.blocks.map (·.slot)).Nodup)
    (hexclusive : w.prev.duties.Exclusive) {i : Inclusion} (hi : i ∈ b.inclusions) {flag : Flag}
    (hflag : (b.flagsOf i).has flag = true) : c.isFlagPossible i.validator flag = .ok true := by
  have hwindow : c.window = w := by rw [h.walked.frame, ← h.window]
  have hlimit : c.delayLimit flag = b.delayLimit flag := by
    rw [h.walked.frame]
    rfl
  obtain ⟨hle, hepoch⟩ := delay_le_of_has hflag
  obtain ⟨slot, k, hslot, -, -, hfirst⟩ := h.opportunity hslots hexclusive hi hepoch
  rw [Bundle.isFlagPossible, isIncludable, hwindow, hslot]
  show (c.firstOpportunity slot (c.delayLimit flag) >>= fun x => pure x.isSome) = _
  rw [hlimit, hfirst _ hle]
  rfl

end Explored

/-- What validators earned was within reach, so that their maxima have it. -/
structure EarnedWithinReach (c : Bundle) : Prop where
  /-- a vote that was included within an epoch had an opportunity no later than that -/
  opportunity : ∀ v t d, c.tallies[v]? = some t → t.inclusionDelay = some d →
    d ≤ c.network.slotsPerEpoch.val →
      ∃ slot k, c.window.prev.duties.voteSlot? v = some slot ∧ 0 < k ∧ k ≤ d ∧
        ∀ limit, d ≤ limit → c.firstOpportunity slot limit = .ok (some k)
  /-- a flag that was earned was possible -/
  possible : ∀ v t flag, c.tallies[v]? = some t → t.flags.has flag = true →
    c.isFlagPossible v flag = .ok true
  /-- the maximum since Altair has the shares of all flags that were earned -/
  altair : ∀ v t base r, c.tallies[v]? = some t →
    Flag.all.foldlM (Altair.flagReward c v base) 0 = .ok r →
      ((Flag.all.filter t.flags.has).map (Altair.flagShare c base)).sum ≤ r
  /-- the one before Altair has them and the share for the delay -/
  phase0 : ∀ v t d base r, c.tallies[v]? = some t → t.inclusionDelay = some d →
    d ≤ c.network.slotsPerEpoch.val → Phase0.baseReward c v = .ok base →
      Phase0.maxReward c v = .ok r →
        ((Flag.all.filter t.flags.has).map (Phase0.flagShare c base)).sum
          + Phase0.delayShare c base d ≤ r

/-- **Earned means possible.** If no two blocks of a window have one slot and no validator is a
member of two committees, then all that validators earned by votes for the first epoch was possible
for them, and their maxima have it. -/
theorem earned_within_reach {net : Network} {phase : Phase} {preference : ReportPreference}
    {w : Window} {a : Bundle} {credits : List Credit} (hslots : (w.blocks.map (·.slot)).Nodup)
    (hexclusive : w.prev.duties.Exclusive) (ha : fresh net phase preference w = .ok a)
    (hb : indexOpportunities a = .ok () b) (hc : processAttestations b = .ok credits c) :
    EarnedWithinReach c := by
  have h := explored_of_fresh ha hb hc
  have hwindow : c.window = w := by rw [h.walked.frame, ← h.window]
  have hnetwork : c.network = b.network := by rw [h.walked.frame]
  have hopportunity : ∀ v t d, c.tallies[v]? = some t → t.inclusionDelay = some d →
      d ≤ c.network.slotsPerEpoch.val →
        ∃ slot k, c.window.prev.duties.voteSlot? v = some slot ∧ 0 < k ∧ k ≤ d ∧
          ∀ limit, d ≤ limit → c.firstOpportunity slot limit = .ok (some k) := by
    intro v t d ht hd hepoch
    rw [hnetwork] at hepoch
    rw [hwindow]
    rcases h.walked.credited h.fresh ht with ⟨i, hi, rfl, rfl⟩ | rfl
    · obtain rfl : i.delay = d := Option.some.inj hd
      exact h.opportunity hslots hexclusive hi hepoch
    · cases hd
  have hpossible : ∀ v t flag, c.tallies[v]? = some t → t.flags.has flag = true →
      c.isFlagPossible v flag = .ok true := by
    intro v t flag ht hflag
    rcases h.walked.credited h.fresh ht with ⟨i, hi, rfl, rfl⟩ | rfl
    · exact h.isFlagPossible hslots hexclusive hi hflag
    · cases flag <;> cases hflag
  have hattainable {v : ValidatorIndex} {t : ValidatorTally} (ht : c.tallies[v]? = some t)
      (flag : Flag) (hflag : t.flags.has flag = true) : c.attainable v flag = true :=
    attainable_of_ok (hpossible v t flag ht hflag)
  refine ⟨hopportunity, hpossible, fun v t base r ht hr => ?_,
    fun v t d base r ht hd hepoch hbase hr => ?_⟩
  · rw [(Altair.flagReward_addsShare c v base).sum hr]
    exact sum_le_attainableSum (hattainable ht)
  · obtain ⟨slot, k, hslot, hk, hkd, hfirst⟩ := hopportunity v t d ht hd hepoch
    obtain ⟨base', hbase', hr⟩ := Phase0.maxReward_ok hr
    obtain rfl : base = base' := Except.ok.inj (hbase.symm.trans hbase')
    have hsum : ((Flag.all.filter t.flags.has).map (Phase0.flagShare c base)).sum
        ≤ c.attainableSum v (Phase0.flagShare c base) := sum_le_attainableSum (hattainable ht)
    have hfound := hfirst _ hepoch
    rcases Phase0.delayReward_ok hr with ⟨s, k', hs, hk', rfl⟩ | ⟨hnone, -⟩
    · obtain rfl : slot = s := Option.some.inj (hslot.symm.trans hs)
      obtain rfl : k = k' := Option.some.inj (Except.ok.inj (hfound.symm.trans hk'))
      exact Nat.add_le_add hsum (Phase0.delayShare_anti c base hk hkd)
    · exact nomatch Except.ok.inj (hfound.symm.trans (hnone slot hslot))

/-- Three epochs of four slots. One validator votes in each slot of the first, and its vote is
included after one, two, five and again two slots. The third slot has no block. -/
def sparseWindow : Window :=
  let vote (slot : Slot) : Attestation :=
    ⟨.ofBits [true], ⟨slot, 0, .zero, ⟨0, .zero⟩, ⟨1, .zero⟩⟩⟩
  let block (slot : Slot) (votes : List Slot) : Block :=
    { Block.missed slot 0 with proposed := slot != 6, attestations := votes.map vote }
  let snapshot (epoch : Epoch) (blocks : List Block) : Snapshot :=
    { Snapshot.placeholder epoch (4 * epoch + 3) with
      validators := List.replicate 4 ⟨.zero, 32, false, 0, 0, farFuture, farFuture⟩
      blockRoots := List.replicate 16 .zero
      blocks
      duties := ⟨(List.range' (4 * epoch) 4).map fun slot => ⟨slot, 0, [slot % 4]⟩, []⟩ }
  ⟨snapshot 1 [block 4 [], block 5 [4], block 6 [], block 7 [5]],
    snapshot 2 [block 8 [], block 9 [7], block 10 [], block 11 [6]], snapshot 3 []⟩

lemma sparseWindow_delays :
    (after (fresh .fourSlots .altair .strictlyPositive sparseWindow)
      (do indexOpportunities; processAttestations)).map (·.tallies.map fun t => (t.inclusionDelay, t.flags))
      = some [(some 1, ⟨true, true, true⟩), (some 2, ⟨true, true, false⟩), (some 5, .none),
        (some 2, ⟨true, true, false⟩)] := by cbv

/-- The last vote, included after two slots, had an opportunity after one. -/
theorem sparseWindow_within_reach :
    (sparseWindow.blocks.map (·.slot)).Nodup ∧ sparseWindow.prev.duties.Exclusive ∧
      ∃ a b credits c, fresh .fourSlots .altair .strictlyPositive sparseWindow = .ok a ∧
        indexOpportunities a = .ok () b ∧ processAttestations b = .ok credits c ∧
          c.tallies.map (·.inclusionDelay) = [some 1, some 2, some 5, some 2] ∧
            EarnedWithinReach c := by
  have hslots : (sparseWindow.blocks.map (·.slot)).Nodup := by decide
  have hexclusive : sparseWindow.prev.duties.Exclusive := by
    unfold Duties.Exclusive
    decide
  obtain ⟨a, credits, c, ha, hrun, hdelays⟩ := exists_of_after sparseWindow_delays
  obtain ⟨_, b, hb, hc⟩ := Pass.bind_ok.1 hrun
  have htallies : c.tallies.map (·.inclusionDelay) = [some 1, some 2, some 5, some 2] := by
    have hfst := congrArg (List.map Prod.fst) hdelays
    rwa [List.map_map] at hfst
  exact ⟨hslots, hexclusive, a, b, credits, c, ha, hb, hc, htallies,
    earned_within_reach hslots hexclusive ha hb hc⟩

end Bundle

end EpochRewards
