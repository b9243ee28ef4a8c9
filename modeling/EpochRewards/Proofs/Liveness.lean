import EpochRewards.Proofs.Deliveries
import EpochRewards.Proofs.Fetches
import EpochRewards.Proofs.Traces

/-!
Downloads do not get stuck.

From a source whose states carry the slots they are requested under, the two parties and the
receiver never all wait for one another, down to a cache with a single share. Every move brings the
download closer to its end, so both parties come to theirs.
-/

namespace EpochRewards.Download.Trace

variable {o : Order} {capacity : Nat} {requests : Requests} {x : Trace}

/-- Slots that can be counted leave no room for a fault. -/
lemma not_faults (hfit : o.range.Fits o.network) : ¬ o.Faults := by
  rintro ⟨e, he, q, q', fault, hfault⟩
  exact (Source.gives_snapshot (hfit.counts_downloads e he)).faultless hfault

lemma Reached.past_of_fits (hr : Reached o capacity requests x) (hfit : o.range.Fits o.network) :
    ∃ done coming, x.Past o capacity requests done coming := by
  rcases hr.past with hpast | ⟨-, hfaults⟩
  · exact hpast
  · exact absurd hfaults (not_faults hfit)

lemma Reached.delivers (hr : Reached o capacity requests x) (hfit : o.range.Fits o.network)
    (hsrc : o.source.Placed) : x.download.Delivers o capacity := by
  have hd : (o.downloads.map o.network.terminalSlot).Nodup := hfit.nodup_lastSlots
  induction hr with
  | refl => exact delivers_start capacity requests
  | tail hr hs ih =>
    obtain ⟨done, coming, hpast⟩ := Reached.past_of_fits hr hfit
    cases hs with
    | fetch hm => exact advance_delivers hd hsrc ih hpast.received hm
    | assemble hm => exact advance_delivers hd hsrc ih hpast.received hm
    | receive hm =>
      obtain ⟨queue, rfl⟩ := receive_keeps hm
      exact ih.served queue _

/-! ### Moves that are left -/

/-- Where nobody can move nothing is queued and both parties wait or have ended. -/
lemma stuck_iff : (¬ ∃ y, Step o x y) ↔ x.download.queue = [] ∧
    ∀ branch party, x.download.advance o branch party = none := by
  constructor
  · intro hstuck
    refine ⟨?_, fun branch party => ?_⟩
    · cases hq : x.download.queue with
      | nil => rfl
      | cons task queue =>
        have hr : x.download.receive? = some (task, { x.download with queue }) := by
          rw [receive?, hq]
        exact absurd ⟨_, .receive hr⟩ hstuck
    · cases hm : x.download.advance o branch party with
      | none => rfl
      | some d =>
        cases party with
        | fetcher => exact absurd ⟨_, .fetch hm⟩ hstuck
        | assembler => exact absurd ⟨_, .assemble hm⟩ hstuck
  · rintro ⟨hq, hnone⟩ ⟨y, hs⟩
    cases hs with
    | fetch hm => cases (hnone _ .fetcher).symm.trans hm
    | assemble hm => cases (hnone _ .assembler).symm.trans hm
    | receive hm =>
      rw [receive?, hq] at hm
      cases hm

lemma remaining_step {y : Trace} (hs : Step o x y) :
    y.download.remaining < x.download.remaining := by
  cases hs with
  | fetch hm => exact remaining_advance hm
  | assemble hm => exact remaining_advance hm
  | receive hm => exact remaining_receive hm

section Ends

variable (hfit : o.range.Fits o.network) (hsrc : o.source.Placed)
include hfit hsrc

/-- With a share in its cache a download only stops where both parties have ended. -/
lemma Reached.finished_of_stuck (hr : Reached o capacity requests x) (hcap : 0 < capacity)
    (hstuck : ¬ ∃ y, Step o x y) : x.Finished := by
  have hd : (o.downloads.map o.network.terminalSlot).Nodup := hfit.nodup_lastSlots
  obtain ⟨done, coming, hpast⟩ := hr.past_of_fits hfit
  obtain ⟨hq, hnone⟩ := stuck_iff.1 hstuck
  have hended : x.download.assembling = false :=
    (hr.delivers hfit hsrc).ended hd hcap hpast.received hq (hnone .closing .fetcher)
      (hnone .closing .assembler)
  exact ⟨hpast.fetched_of_ended hended, hended⟩

/-- Once everything is fetched a download only stops where both parties have ended, whatever the
size of the cache. -/
lemma Reached.finished_of_fetched (hr : Reached o capacity requests x) (hfetched : x.Fetched)
    (hstuck : ¬ ∃ y, Step o x y) : x.Finished := by
  have hd : (o.downloads.map o.network.terminalSlot).Nodup := hfit.nodup_lastSlots
  obtain ⟨done, coming, hpast⟩ := hr.past_of_fits hfit
  obtain ⟨hq, hnone⟩ := stuck_iff.1 hstuck
  refine ⟨hfetched, ?_⟩
  by_contra ha
  have hopen : x.download.assembling = true := by simpa using ha
  obtain ⟨settled, coming', hdel, horder⟩ := hr.delivers hfit hsrc hopen
  have hc := hdel.coming_none hfetched.1
  rw [hc, hfetched.2, Option.toList_none, List.map_nil, List.append_nil, List.append_nil] at horder
  have hall : ∀ e ∈ o.downloads, e ∈ settled.map (·.1) := horder ▸ fun e he => he
  exact ha (Delivering.returns hd (fun _ => hdel) hall hpast.received hq (hnone .closing .assembler))

/-- From wherever a download stands both parties can come to their ends. -/
lemma Reached.finishes (hr : Reached o capacity requests x) (hcap : 0 < capacity) :
    ∃ y, Steps o x y ∧ y.Finished := by
  induction hn : x.download.remaining using Nat.strong_induction_on generalizing x with
  | _ n ih =>
    subst hn
    by_cases hstep : ∃ y, Step o x y
    · obtain ⟨y, hs⟩ := hstep
      obtain ⟨z, hz, hfinished⟩ := ih _ (remaining_step hs) (hr.tail hs) rfl
      exact ⟨z, .head hs hz, hfinished⟩
    · exact ⟨x, .refl, hr.finished_of_stuck hfit hsrc hcap hstep⟩

end Ends

/-- **A download cannot deadlock.** With one share in the cache or more, whichever snapshots cannot
be had and however the moves follow on one another, nothing crashes, and either both parties have
ended or someone can move. Every move leaves less to be done, so both parties end. No more snapshots
are in the cache than there are shares, and the epochs are taken out of it in ascending order, each
of them once. -/
theorem Reached.cannot_deadlock (hr : Reached o capacity requests x)
    (hfit : o.range.Fits o.network) (hsrc : o.source.Placed) (hcap : 0 < capacity) :
    x.download.crash = none ∧
      (x.Finished ∨ ∃ y, Step o x y) ∧
      (∀ y, Step o x y → y.download.remaining < x.download.remaining) ∧
      (∃ y, Steps o x y ∧ y.Finished) ∧
      x.download.cache.size ≤ capacity ∧
      x.taken <+: o.downloads ∧ x.taken.Pairwise (· < ·) ∧
      (x.Finished → x.taken = o.downloads) := by
  obtain ⟨done, coming, hpast⟩ := hr.past_of_fits hfit
  have hprefix : x.taken <+: o.downloads := ⟨_, hpast.taken⟩
  have hascending : o.downloads.Pairwise (· < ·) := EpochSpan.pairwise_toList _
  refine ⟨hpast.running, ?_, fun y => remaining_step, hr.finishes hfit hsrc hcap,
    hpast.conserves.size_le, hprefix, hascending.sublist hprefix.sublist, fun hfinished => ?_⟩
  · by_cases hstep : ∃ y, Step o x y
    · exact .inr hstep
    · exact .inl (hr.finished_of_stuck hfit hsrc hcap hstep)
  · have htaken := hpast.taken
    rw [(hpast.ended hfinished.2).1, List.append_nil] at htaken
    exact htaken

/-- A source with a state for each slot, which carries a slot that depends on it. -/
def carryingSource (carried : Slot → Slot) : Source where
  block slot _ := .ok (.missed slot 0)
  report slot _ := .error (.notFound .report slot)
  duties _ _ := .ok .empty
  state slot _ := .ok (.placeholder slot (carried slot))

/-- Epoch 0 of a network whose epochs have one slot. -/
def carryingOrder (carried : Slot → Slot) : Order where
  network := { Network.custom with slotsPerEpoch := ⟨1, Nat.one_pos⟩ }
  range := ⟨0, 0, 0, 0⟩
  retries := 0
  source := carryingSource carried

/-- Three snapshots go through a cache with a single share. -/
theorem carrying_cannot_deadlock :
    (carryingOrder id).range.Fits (carryingOrder id).network ∧
      (carryingOrder id).source.Placed ∧ ∃ x, Reached (carryingOrder id) 1 .none x ∧ x.Finished ∧
        x.taken = [0, 1, 2] := by
  have hfit : (carryingOrder id).range.Fits (carryingOrder id).network :=
    ⟨by decide, by decide, by decide⟩
  have hsrc : (carryingOrder id).source.Placed := by
    intro slot i s hs
    cases hs
    rfl
  have hstart : Reached (carryingOrder id) 1 .none (start (carryingOrder id) 1 .none) := .refl
  obtain ⟨-, -, -, ⟨x, hs, hfinished⟩, -⟩ := hstart.cannot_deadlock hfit hsrc Nat.one_pos
  have hr : Reached (carryingOrder id) 1 .none x := hs
  obtain ⟨-, -, -, -, -, -, -, hall⟩ := hr.cannot_deadlock hfit hsrc Nat.one_pos
  exact ⟨hfit, hsrc, x, hr, hfinished, hall hfinished⟩

end EpochRewards.Download.Trace
