import EpochRewards.Proofs.Accumulation
import EpochRewards.Proofs.Dimensions
import EpochRewards.Proofs.Polls
import EpochRewards.Proofs.Removals

/-!
Participation in a perfect chain.

Every vote of a perfect chain agrees with the roots that the ring is read for and is included in
the next slot. So a validator has all flags with a delay of one slot, unless its vote for the epoch
was removed. Then it is as if it had never voted. Only an overflow can keep a validator from having
a record, and the networks and chains for which there is none are given by their sizes.
-/

namespace EpochRewards

open Chain

namespace Bundle

/-! ### The outcome of the walk over the votes -/

/-- The roots that the votes are compared with are known, and each tally has the delay and the flags
of the first vote of its validator. -/
structure VotesCredited (b : Bundle) : Prop where
  target : ∃ r, b.window.current.blockRootOf b.network b.window.prev.epoch = .ok r
  head : ∀ i ∈ b.inclusions, ∃ r, b.window.current.blockRootAt b.network i.vote.slot = .ok r
  ballot : ∀ v t, b.tallies[v]? = some t → t.ballot = (b.settle b.inclusions v .zero).ballot

lemma votesCredited_build {net : Network} {preference : ReportPreference} {w : Window} {b : Bundle}
    (hr : w.isRewarded = true) (h : build net preference w = .ok b) : b.VotesCredited := by
  obtain ⟨phase, a, ha, ⟨b₀, credits, d, halike, hd, hpoll⟩, hsetting⟩ := walks_of_build hr h
  obtain ⟨htarget, hresolved, hwalked, -⟩ := processAttestations_ok
    (fun t ht => unvoted_fresh ha t (halike.tallies ▸ ht)) hd
  have hb₀ : b.setting = b₀.setting := hsetting.trans halike.setting.symm
  obtain ⟨hnet, -, -, hwindow, -⟩ := setting_eq_iff.1 hb₀
  refine ⟨by rwa [hnet, hwindow], fun i hi => ?_, fun v t ht => ?_⟩
  · rw [inclusions_congr hb₀] at hi
    obtain ⟨x, hx, hi⟩ := List.mem_flatMap.1 hi
    obtain ⟨_, -, rfl⟩ := List.mem_map.1 hi
    rw [hnet, hwindow]
    exact (hresolved x hx).head
  · -- the ballots are those that the walk has left
    have hballots : b.tallies.map (·.ballot) = d.tallies.map (·.ballot) :=
      congrArg Poll.ballots hpoll
    have hballot : (d.tallies.map (·.ballot))[v]? = some t.ballot := by
      rw [← hballots, List.getElem?_map, ht]
      rfl
    rw [List.getElem?_map, hwalked.tally, Option.map_map, Option.map_eq_some_iff] at hballot
    obtain ⟨t₀, ht₀, hsettled⟩ := hballot
    have hzero : t₀ = .zero :=
      fresh_tallies ha t₀ (halike.tallies ▸ List.mem_of_getElem? ht₀)
    have hsettle : b.settle = b₀.settle := by
      funext is u x
      rw [settle, settle, flagsOf_congr hb₀]
    rw [← hsettled, hzero, hsettle, inclusions_congr hb₀]
    rfl

end Bundle

/-! ### Votes of a perfect chain -/

namespace Window.PerfectBut

variable {net : Network} {n e : Nat} {removed : Removals} {w : Window} {b : Bundle}
  {preference : ReportPreference} {v : ValidatorIndex} {i : Inclusion}

lemma isRewarded (h : w.PerfectBut net n removed e) : w.isRewarded = true := by
  unfold Window.isRewarded
  rw [h.prev.taken.real, h.current.taken.real, h.current.taken.epoch]
  rfl

/-- The blocks before those of the last epoch. -/
lemma mem_blocks (h : w.PerfectBut net n removed e) {block : Block}
    (hblock : block ∈ w.blocksBeforeNext) :
    block.PerfectBut net n removed ∧ block.slot < Word.max := by
  rcases List.mem_append.1 hblock with hblock | hblock
  · exact ⟨h.prev.blocks block hblock, (h.prev.mem_slots.1 (List.mem_map_of_mem hblock)).2⟩
  · exact ⟨h.current.blocks block hblock, (h.current.mem_slots.1 (List.mem_map_of_mem hblock)).2⟩

/-- A vote that is included is that of a committee member, in the slot after the committee's. -/
lemma inclusion_ok (h : w.PerfectBut net n removed e) (hnet : b.network = net)
    (hwindow : b.window = w) (hi : i ∈ b.inclusions) :
    ∃ slot, i.block.slot = slot + 1 ∧ i.vote = voteAt net slot ∧ net.epochOf slot = e ∧
      i.validator < n ∧ (i.validator, e) ∉ removed := by
  obtain ⟨⟨hblock, -⟩, a, ha, hcounts, hdata, hvoter⟩ := Bundle.mem_inclusions.1 hi
  rw [hwindow] at hblock hvoter
  obtain ⟨hperfect, hword⟩ := h.mem_blocks hblock
  rw [hperfect.votes] at ha
  obtain ⟨slot, hslot, hne, rfl⟩ := mem_votesIn ha
  have hepoch : net.epochOf slot = e := by
    rw [Bundle.counts, decide_eq_true_eq, hnet, hwindow, h.prev.taken.epoch] at hcounts
    exact hcounts.1
  rw [hslot] at hword
  have hslotWord : slot < Word.max := Nat.lt_of_succ_lt hword
  obtain ⟨hmember, hkept⟩ := (h.prev.mem_voters hepoch hslotWord hne).1 hvoter
  exact ⟨slot, hslot, hdata.symm, hepoch, (mem_committeeMembers.1 hmember).1, hkept⟩

/-- A vote that was not removed is included. -/
lemma exists_inclusion (h : w.PerfectBut net n removed e) (hnet : b.network = net)
    (hwindow : b.window = w) (hv : v < n) (hkept : (v, e) ∉ removed) :
    ∃ i ∈ b.inclusions, i.validator = v := by
  obtain ⟨slot, hepoch, hmember⟩ := exists_mem_committeeMembers net e hv
  have hne : committeeMembers net n slot ≠ [] := List.ne_nil_of_mem hmember
  obtain ⟨hfirst, hlast, hword⟩ := h.next_bounds hepoch
  obtain ⟨s, hs, block, hblock, hslot⟩ := h.exists_block hfirst hlast hword
  have hlisted : block ∈ w.blocksBeforeNext := by
    rcases List.mem_pair.1 hs with rfl | rfl
    · exact List.mem_append_left _ hblock
    · exact List.mem_append_right _ hblock
  have hperfect := (h.mem_blocks hlisted).1
  refine ⟨⟨block, voteAt net slot, v⟩, Bundle.mem_inclusions.2 ⟨?_, aggregateAt net n removed slot,
    ?_, ?_, rfl, ?_⟩, rfl⟩
  · rw [hwindow]
    exact ⟨hlisted, hperfect.proposed⟩
  · rw [hperfect.votes, hslot, votesIn, if_neg hne]
    exact List.mem_singleton_self _
  · rw [Bundle.counts, decide_eq_true_eq, hnet, hwindow, h.prev.taken.epoch, hslot]
    exact ⟨hepoch, Nat.lt_succ_self _⟩
  · rw [hwindow]
    exact (h.prev.mem_voters hepoch (Nat.lt_of_succ_lt hword) hne).2 ⟨hmember, hkept⟩

/-- A delay of one slot is early enough for every flag. -/
lemma one_le_delayLimit (b : Bundle) (flag : Flag) : 1 ≤ b.delayLimit flag := by
  have hslots := b.network.slotsPerEpoch.pos
  unfold Bundle.delayLimit
  split
  · cases flag with
    | source => exact Word.le_sqrt hslots
    | target => exact hslots
    | head => exact b.network.minInclusionDelay.pos
  · exact hslots

/-- A vote that is included has all flags. -/
lemma flagsOf_eq (h : w.PerfectBut net n removed e) (hnet : b.network = net)
    (hwindow : b.window = w) (hb : b.VotesCredited) (hi : i ∈ b.inclusions) :
    i.delay = 1 ∧ b.flagsOf i = ⟨true, true, true⟩ := by
  obtain ⟨slot, hslot, hvote, hepoch, -, -⟩ := h.inclusion_ok hnet hwindow hi
  have hdelay : i.delay = 1 := by
    rw [Inclusion.delay, hslot, hvote]
    exact Nat.add_sub_cancel_left slot 1
  obtain ⟨target, htarget⟩ := hb.target
  obtain ⟨head, hhead⟩ := hb.head i hi
  refine ⟨hdelay, ?_⟩
  rw [Bundle.flagsOf, Bundle.canonical, keptRoot_ok htarget, keptRoot_ok hhead, hdelay]
  rw [hnet, hwindow] at htarget hhead
  rw [h.current.blockRootAt_ok htarget, h.current.blockRootAt_ok hhead, hvote, hwindow,
    h.prev.justified, h.prev.taken.epoch]
  simp [Bundle.voteFlags, voteAt, hepoch, checkpointAt, one_le_delayLimit]

/-- The ballot of a validator is full unless its vote was removed. -/
lemma ballot_eq (h : w.PerfectBut net n removed e) (hb : Bundle.build net preference w = .ok b)
    (hv : v < n) {t : ValidatorTally} (ht : b.tallies[v]? = some t) :
    t.ballot = if (v, e) ∈ removed then (none, .none) else (some 1, ⟨true, true, true⟩) := by
  have hnet := Bundle.network_build hb
  have hwindow := Bundle.window_build hb
  have hcredited := Bundle.votesCredited_build h.isRewarded hb
  rw [hcredited.ballot v t ht, Bundle.settle]
  cases hfind : b.inclusions.find? (·.validator = v) with
  | none =>
    have hremoved : (v, e) ∈ removed := by
      by_contra hkept
      obtain ⟨i, hi, hvalidator⟩ := h.exists_inclusion hnet hwindow hv hkept
      exact List.find?_eq_none.1 hfind i hi (decide_eq_true hvalidator)
    rw [if_pos hremoved]
    rfl
  | some i =>
    have hi := List.mem_of_find?_eq_some hfind
    have hvalidator : i.validator = v := by simpa using List.find?_some hfind
    obtain ⟨-, -, -, -, -, hkept⟩ := h.inclusion_ok hnet hwindow hi
    obtain ⟨hdelay, hflags⟩ := h.flagsOf_eq hnet hwindow hcredited hi
    rw [hvalidator] at hkept
    rw [if_neg hkept, ← hdelay, ← hflags]
    rfl

/-! ### Records -/

lemma balanceOf_eq {s : Snapshot} {f : Nat} (h : s.PerfectBut net n removed f) (hv : v < n) :
    s.balanceOf v = validatorBalance + balanceGrowth * (f - 1) := by
  rw [Snapshot.balanceOf, Snapshot.balance?, h.balances, List.getElem?_replicate_of_lt hv]
  rfl

/-- Balances grow by the same amount in every epoch. -/
lemma balanceChange_eq (h : w.PerfectBut net n removed e) (hv : v < n) :
    w.balanceChange v = balanceGrowth := by
  have hwithdrawn := h.withdrawnIn_eq_zero v
  have hgrowth : validatorBalance + balanceGrowth * (e + 2 - 1)
      = validatorBalance + balanceGrowth * (e + 1 - 1) + balanceGrowth := by
    rw [Nat.add_assoc]
    rfl
  rw [balanceChange, balanceOf_eq h.next hv, balanceOf_eq h.current hv, hwithdrawn, hgrowth]
  push_cast
  ring

/-- A validator has a record unless the arithmetic overflows. -/
lemma errs_resolve (h : w.PerfectBut net n removed e) (hb : Bundle.build net preference w = .ok b)
    (hv : v < n) : Calc.Errs Failure.IsOverflow (b.resolve v) := by
  have hwindow := Bundle.window_build hb
  have hlength : b.tallies.length = b.window.next.validators.length := by
    rw [(Bundle.reached_of_build hb).length_tallies, hwindow]
  have hcovers : b.window.Covers v := by
    rw [hwindow, Covers, h.next.length_validators, h.next.balances, List.length_replicate]
    exact ⟨hv, hv⟩
  have hexpressible : b.window.Expressible v := by
    intro _
    rw [hwindow, h.balanceChange_eq hv]
    exact ⟨by decide, by decide⟩
  intro err herr
  have houtcome := Bundle.resolve_outcome hlength v
  rw [herr] at houtcome
  cases houtcome with
  | overflow hf => exact hf
  | outside hno => exact (hno hcovers).elim
  | conversion _ hno => exact (hno hexpressible).elim

/-- In a chain whose parts can be counted there is a bundle and a record of everybody. -/
lemma exists_resolve {last : Nat} (h : w.PerfectBut net n removed e)
    (hring : 2 * net.slotsPerEpoch.val ≤ net.rootRing.val) (hlast : e + 2 ≤ last)
    (hroomy : Roomy net n last) (preference : ReportPreference) :
    ∃ b, Bundle.build net preference w = .ok b ∧ ∀ v < n, ∃ rec, b.resolve v = .ok rec := by
  obtain ⟨hbuild, hresolve⟩ := (h.atScale hlast hroomy).no_overflow_record hroomy.usual
    h.statedAtScale preference
  cases hb : Bundle.build net preference w with
  | error err => exact absurd (h.errs_build hring preference err hb) (hbuild err hb)
  | ok b =>
    refine ⟨b, rfl, fun v hv => ?_⟩
    cases hrec : b.resolve v with
    | error err => exact absurd (h.errs_resolve hb hv err hrec) (hresolve b hb v err hrec)
    | ok rec => exact ⟨rec, rfl⟩

end Window.PerfectBut

/-- What a record says about the vote of its validator. -/
structure Participation where
  missing : Flags
  delay : Nat
  deriving DecidableEq

namespace Participation

/-- All flags, after the shortest delay there is. -/
def full : Participation := ⟨.none, 1⟩

/-- No flag, and the delay that stands for votes that were never included. -/
def absent (net : Network) : Participation := ⟨⟨true, true, true⟩, net.slotsPerEpoch.val + 1⟩

end Participation

def ValidatorRecord.participation (rec : ValidatorRecord) : Participation :=
  ⟨⟨rec.missingSource, rec.missingTarget, rec.missingHead⟩, rec.inclusionDelay⟩

namespace Window

/-- What the record of a validator says of its vote in the first epoch, if there is a record. -/
def participation? (net : Network) (preference : ReportPreference) (w : Window)
    (v : ValidatorIndex) : Option Participation :=
  Bundle.reading net preference w v fun _ rec => rec.participation

/-- A window that starts with the epoch `e` has records of all validators, from which the votes that
were removed are missing and no others. -/
structure Attended (net : Network) (n last : Nat) (removed : Removals) (e : Epoch)
    (preference : ReportPreference) (w : Window) : Prop where
  built : Calc.Errs Failure.IsOverflow (Bundle.build net preference w)
  resolved : ∀ b, Bundle.build net preference w = .ok b → ∀ v < n,
    Calc.Errs Failure.IsOverflow (b.resolve v)
  participation : ∀ b, Bundle.build net preference w = .ok b → ∀ v < n, ∀ rec,
    b.resolve v = .ok rec → rec.participation = if (v, e) ∈ removed then .absent net else .full
  /-- there is a bundle and a record of everybody, unless the sizes of the chain are beyond those
  for which nothing overflows -/
  recorded : Roomy net n last → ∃ b, Bundle.build net preference w = .ok b ∧ ∀ v < n, ∃ rec,
    b.resolve v = .ok rec ∧ rec.participation = if (v, e) ∈ removed then .absent net else .full

end Window

namespace Window.PerfectBut

variable {net : Network} {n e : Nat} {removed : Removals} {w : Window} {b : Bundle}
  {preference : ReportPreference} {v : ValidatorIndex} {rec : ValidatorRecord}

/-- Records show which votes were removed. -/
lemma participation_eq (h : w.PerfectBut net n removed e)
    (hb : Bundle.build net preference w = .ok b) (hv : v < n) (hrec : b.resolve v = .ok rec) :
    rec.participation = if (v, e) ∈ removed then .absent net else .full := by
  have hfigures := Bundle.resolve_figures hrec
  obtain ⟨t, ht, -, hsource, htarget, hhead⟩ := hfigures.tally
  have hballot := h.ballot_eq hb hv ht
  have hdelay : rec.inclusionDelay = t.inclusionDelay.getD (net.slotsPerEpoch.val + 1) := by
    rw [← Bundle.network_build hb, Bundle.inclusionDelay_ok hfigures.delay, Bundle.delayOf, ht]
    rfl
  have hparticipation : rec.participation
      = ⟨⟨!t.flags.source, !t.flags.target, !t.flags.head⟩,
        t.inclusionDelay.getD (net.slotsPerEpoch.val + 1)⟩ := by
    rw [ValidatorRecord.participation, hsource, htarget, hhead, hdelay]
  rw [hparticipation]
  split at hballot
  · next hremoved =>
    obtain ⟨hnone, hflags⟩ := Prod.mk.inj hballot
    rw [if_pos hremoved, hnone, hflags]
    rfl
  · next hkept =>
    obtain ⟨hsome, hflags⟩ := Prod.mk.inj hballot
    rw [if_neg hkept, hsome, hflags]
    rfl

lemma attended {last : Nat} (h : w.PerfectBut net n removed e)
    (hring : 2 * net.slotsPerEpoch.val ≤ net.rootRing.val) (hlast : e + 2 ≤ last)
    (preference : ReportPreference) : w.Attended net n last removed e preference where
  built := h.errs_build hring preference
  resolved _ hb _ hv := h.errs_resolve hb hv
  participation _ hb _ hv _ hrec := h.participation_eq hb hv hrec
  recorded hroomy := by
    obtain ⟨b, hb, hall⟩ := h.exists_resolve hring hlast hroomy preference
    refine ⟨b, hb, fun v hv => ?_⟩
    obtain ⟨rec, hrec⟩ := hall v hv
    exact ⟨rec, hrec, h.participation_eq hb hv hrec⟩

/-- In a chain whose parts can be counted everybody's participation is known. -/
lemma participation?_eq {last : Nat} (h : w.PerfectBut net n removed e)
    (hring : 2 * net.slotsPerEpoch.val ≤ net.rootRing.val) (hlast : e + 2 ≤ last)
    (hroomy : Roomy net n last) (hv : v < n) :
    w.participation? net preference v
      = some (if (v, e) ∈ removed then .absent net else .full) := by
  obtain ⟨b, hb, hall⟩ := h.exists_resolve hring hlast hroomy preference
  obtain ⟨rec, hrec⟩ := hall v hv
  rw [participation?, Bundle.reading_eq hb hrec, h.participation_eq hb hv hrec]

end Window.PerfectBut

/-! ### Chains with votes removed -/

namespace Chain

/-- The window of a perfect chain that ends in the epoch `k`. -/
lemma PerfectBut.window {net : Network} {n last k : Nat} {removed : Removals} {c : Chain}
    (h : c.PerfectBut net n last removed) (hk : 2 ≤ k) (hlast : k ≤ last) :
    ∃ w, c.window k = .ok w ∧ w.PerfectBut net n removed (k - 2) := by
  have hstate (e : Nat) (he : e ≤ last) :
      ∃ s, c.state e = .ok s ∧ s.PerfectBut net n removed e := by
    obtain ⟨s, hs⟩ : ∃ s, c.states[e]? = some s :=
      ⟨_, List.getElem?_eq_getElem (by rw [h.length]; omega)⟩
    exact ⟨s, Calc.orFail_ok.2 hs, h.state e s hs⟩
  obtain ⟨e, rfl⟩ := Nat.exists_eq_add_of_le' hk
  obtain ⟨prev, hprev, hprev'⟩ := hstate e (by omega)
  obtain ⟨current, hcurrent, hcurrent'⟩ := hstate (e + 1) (by omega)
  obtain ⟨next, hnext, hnext'⟩ := hstate (e + 2) hlast
  refine ⟨⟨prev, current, next⟩, ?_, hprev', hcurrent', hnext'⟩
  rw [Chain.window, if_neg (Nat.not_lt.2 hk)]
  simp only [Calc.bind_ok, Calc.pure_ok]
  exact ⟨prev, hprev, current, hcurrent, next, hnext, rfl⟩

/-- One more removal is not about other validators and epochs. -/
lemma mem_append_removal {calls : Removals} {v u : ValidatorIndex} {e f : Epoch}
    (hother : (v, e) ≠ (u, f)) : (v, e) ∈ calls ++ [(u, f)] ↔ (v, e) ∈ calls := by
  rw [List.mem_append, List.mem_singleton, or_iff_left hother]

/-- **Only removed votes are missed.** A perfect chain is built unless its arithmetic overflows or
it takes too much space. If its ring of roots spans two epochs, then whichever votes are removed,
each window from epoch two on has a bundle and each validator a record, unless the arithmetic
overflows. The record has no flag and the delay of missing votes if the validator's vote in the
window's first epoch was removed, and all flags and a delay of one slot otherwise. One more removal
changes neither for other validators and epochs. For a usual network, two million validators and any
number of epochs that is far from the largest word, the chain is built and so are its bundles and
records. -/
theorem full_unless_removed {net : Network} {n : Nat}
    (hring : 2 * net.slotsPerEpoch.val ≤ net.rootRing.val) (hn : 0 < n) (last : Epoch) :
    Calc.Errs Exceeds (Chain.build net n last) ∧
      (Roomy net n last → ∃ c, Chain.build net n last = .ok c) ∧
        ∀ (c c' : Chain) (calls : Removals), Chain.build net n last = .ok c →
          removeVotes calls c = .ok () c' → ∀ k, 2 ≤ k → k ≤ last → ∀ preference,
            ∃ w, c'.window k = .ok w ∧ w.Attended net n last calls (k - 2) preference ∧
              ∀ (u : ValidatorIndex) (f : Epoch) (d : Chain), removeVote u f c' = .ok () d →
                ∃ x, d.window k = .ok x ∧
                  x.Attended net n last (calls ++ [(u, f)]) (k - 2) preference ∧
                  ∀ v < n, (v, k - 2) ≠ (u, f) →
                    (Roomy net n last →
                      x.participation? net preference v = w.participation? net preference v) ∧
                    ∀ p q, w.participation? net preference v = some p →
                      x.participation? net preference v = some q → q = p := by
  refine ⟨exceeds_build hn last, exists_build hn, fun c c' calls hbuild hcalls k hk hlast
    preference => ?_⟩
  have hreach : k - 2 + 2 ≤ last := by rwa [Nat.sub_add_cancel hk]
  have hc' : c'.PerfectBut net n last calls := (perfect_build hbuild).removeVotes hcalls
  obtain ⟨w, hw, hperfect⟩ := hc'.window hk hlast
  refine ⟨w, hw, hperfect.attended hring hreach preference, fun u f d hd => ?_⟩
  obtain ⟨x, hx, hperfect'⟩ := (hc'.removeVote hd).window hk hlast
  refine ⟨x, hx, hperfect'.attended hring hreach preference, fun v hv hother => ⟨?_, ?_⟩⟩
  · intro hroomy
    rw [hperfect.participation?_eq hring hreach hroomy hv,
      hperfect'.participation?_eq hring hreach hroomy hv]
    exact congrArg some (if_congr (mem_append_removal hother) rfl rfl)
  · intro p q hp hq
    obtain ⟨b, rec, hb, hrec, rfl⟩ := Bundle.exists_of_reading hp
    obtain ⟨b', rec', hb', hrec', rfl⟩ := Bundle.exists_of_reading hq
    rw [hperfect.participation_eq hb hv hrec, hperfect'.participation_eq hb' hv hrec']
    exact if_congr (mem_append_removal hother) rfl rfl

/-- Epochs of two slots, and a sync committee with a single seat from epoch one on. -/
def pairNetwork : Network :=
  { Network.minimal with
    altairEpoch := 1
    slotsPerEpoch := ⟨2, Nat.two_pos⟩
    syncCommitteeSize := ⟨1, Nat.one_pos⟩ }

/-- The chains after one removal and after another one, if the perfect chain can be built. -/
def thinned (net : Network) (n last : Nat) (first second : ValidatorIndex × Epoch) :
    Option (Chain × Chain) :=
  match Chain.build net n last with
  | .error _ => none
  | .ok c =>
    match removeVotes [first] c with
    | .error _ _ => none
    | .ok _ c' =>
      match removeVote second.1 second.2 c' with
      | .error _ _ => none
      | .ok _ d => some (c', d)

lemma exists_of_thinned {net : Network} {n last : Nat} {first second : ValidatorIndex × Epoch}
    (h : (thinned net n last first second).isSome = true) :
    ∃ c c' d, Chain.build net n last = .ok c ∧ removeVotes [first] c = .ok () c' ∧
      removeVote second.1 second.2 c' = .ok () d := by
  unfold thinned at h
  split at h
  · cases h
  · next c hc =>
    split at h
    · cases h
    · next c' hc' =>
      split at h
      · cases h
      · next d hd => exact ⟨c, c', d, hc, hc', hd⟩

lemma pairNetwork_thinned : (thinned pairNetwork 3 2 (1, 0) (0, 1)).isSome = true := by cbv

/-- The vote of the second validator is removed from a block of the next epoch, and then one that
does not matter for the window. The chain is small enough for its bundles and records, and the
record of the second validator alone misses the flags. -/
theorem pairNetwork_full_unless_removed :
    Roomy pairNetwork 3 2 ∧ 2 * pairNetwork.slotsPerEpoch.val ≤ pairNetwork.rootRing.val ∧
      ∃ c c' d w x, Chain.build pairNetwork 3 2 = .ok c ∧ removeVotes [(1, 0)] c = .ok () c' ∧
        removeVote 0 1 c' = .ok () d ∧ c'.window 2 = .ok w ∧ d.window 2 = .ok x ∧
        w.Attended pairNetwork 3 2 [(1, 0)] 0 .strictlyPositive ∧
        x.Attended pairNetwork 3 2 [(1, 0), (0, 1)] 0 .strictlyPositive ∧
        (∃ b r₀ r₁ r₂, Bundle.build pairNetwork .strictlyPositive w = .ok b ∧
          b.resolve 0 = .ok r₀ ∧ r₀.participation = ⟨⟨false, false, false⟩, 1⟩ ∧
          b.resolve 1 = .ok r₁ ∧ r₁.participation = ⟨⟨true, true, true⟩, 3⟩ ∧
          b.resolve 2 = .ok r₂ ∧ r₂.participation = ⟨⟨false, false, false⟩, 1⟩) ∧
        ∀ v < 3, x.participation? pairNetwork .strictlyPositive v
          = w.participation? pairNetwork .strictlyPositive v := by
  have husual : pairNetwork.Usual :=
    ⟨rfl, by decide, by decide, by decide, by decide, by decide, by decide⟩
  have hroomy : Roomy pairNetwork 3 2 := ⟨husual, by decide, by decide⟩
  have hring : 2 * pairNetwork.slotsPerEpoch.val ≤ pairNetwork.rootRing.val := by decide
  obtain ⟨c, c', d, hbuild, hcalls, hd⟩ := exists_of_thinned pairNetwork_thinned
  obtain ⟨-, -, hall⟩ := full_unless_removed hring (Nat.succ_pos 2) 2
  obtain ⟨w, hw, hattended, hlater⟩ := hall c c' [(1, 0)] hbuild hcalls 2 (Nat.le_refl 2)
    (Nat.le_refl 2) .strictlyPositive
  obtain ⟨x, hx, hattended', hsame⟩ := hlater 0 1 d hd
  obtain ⟨b, hb, hrecords⟩ := hattended.recorded hroomy
  obtain ⟨r₀, hr₀, hfull₀⟩ := hrecords 0 (by decide)
  obtain ⟨r₁, hr₁, habsent⟩ := hrecords 1 (by decide)
  obtain ⟨r₂, hr₂, hfull₂⟩ := hrecords 2 (by decide)
  refine ⟨hroomy, hring, c, c', d, w, x, hbuild, hcalls, hd, hw, hx, hattended, hattended',
    ⟨b, r₀, r₁, r₂, hb, hr₀, hfull₀, hr₁, habsent, hr₂, hfull₂⟩, fun v hv => ?_⟩
  -- the other vote is one of another epoch
  exact (hsame v hv (fun h => absurd (Prod.mk.inj h).2 (by decide))).1 hroomy

end Chain

end EpochRewards
