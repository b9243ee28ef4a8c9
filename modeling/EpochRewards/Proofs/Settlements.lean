import EpochRewards.Proofs.Liveness
import Mathlib

/-!
Which promises a download settles.

An outcome is settled under the slot that its snapshot carries, and waited for under the last slot
of its epoch. The two are the same for a source whose states carry the slots they are requested
under, and for no other one is it certain that what is waited for will ever be settled.
-/

namespace EpochRewards.Download.Trace

variable {o : Order} {capacity : Nat} {requests : Requests} {x : Trace} {e : Epoch} {slot : Slot}

/-- The slots that have been settled are those of the outcomes that were moved past. -/
lemma Past.mem_settled {done : Outcomes} {coming : Option (Epoch × Snapshot)}
    (h : x.Past o capacity requests done coming) :
    slot ∈ x.settled ↔ ∃ y ∈ o.outcomes requests o.downloads,
      y.1 ∈ x.download.passed o ∧ o.key y = slot := by
  obtain ⟨hdone, hepochs⟩ := h.epochs_done
  have hnodup : ((o.outcomes requests o.downloads).map (·.1)).Nodup := by
    rw [Order.epochs_outcomes]
    exact EpochSpan.nodup_toList _
  rw [h.settled, List.mem_map]
  constructor
  · rintro ⟨y, hy, hkey⟩
    refine ⟨y, List.mem_of_mem_take (hdone ▸ hy), ?_, hkey⟩
    rw [← hepochs]
    exact List.mem_map_of_mem hy
  · rintro ⟨y, hy, hpassed, hkey⟩
    rw [← hepochs] at hpassed
    obtain ⟨z, hz, hzy⟩ := List.mem_map.1 hpassed
    have hzall : z ∈ o.outcomes requests o.downloads := List.mem_of_mem_take (hdone ▸ hz)
    exact ⟨z, hz, (List.inj_on_of_nodup_map hnodup hzall hy hzy).symm ▸ hkey⟩

lemma Past.mem_outcomes {done : Outcomes} {coming : Option (Epoch × Snapshot)}
    (h : x.Past o capacity requests done coming) (he : e ∈ x.download.passed o) :
    ∃ out, (e, out) ∈ o.outcomes requests o.downloads := by
  obtain ⟨hdone, hepochs⟩ := h.epochs_done
  rw [← hepochs] at he
  obtain ⟨⟨e', out⟩, hy, rfl⟩ := List.mem_map.1 he
  exact ⟨out, List.mem_of_mem_take (hdone ▸ hy)⟩

/-- The moves of a drained download are moves of a trace. -/
lemma drain_steps (x : Trace) : ∃ y, Steps o x y ∧ y.download = (x.download.drain o).2 := by
  induction hn : x.download.remaining using Nat.strong_induction_on generalizing x with
  | _ n ih =>
    subst hn
    have go (y : Trace) (hs : Step o x y) :
        ∃ z, Steps o x z ∧ z.download = (y.download.drain o).2 := by
      obtain ⟨z, hz, hdrain⟩ := ih _ (remaining_step hs) y rfl
      exact ⟨z, .head hs hz, hdrain⟩
    rw [drain]
    split
    · next hr => exact go _ (.receive hr)
    · split
      · next ha => exact go _ (.assemble ha)
      · split
        · next hf => exact go _ (.fetch hf)
        · exact ⟨x, .refl, rfl⟩

/-- **What is settled.** Whatever a source answers and however the moves follow on one another, the
slots settled so far are those of the outcomes that the fetching party has moved past: the slot that
a snapshot carries, and the last slot of an epoch without one. What is waited for is therefore
settled once its epoch is moved past, unless the state that was fetched for it carries another slot.
With states that carry the slots they are requested under nothing that is waited for is left out,
so with all slots in range a download whose fetching party has ended does not get stuck. -/
theorem Reached.settled_by_key (hr : Reached o capacity requests x)
    (hrun : x.download.crash = none) :
    (∀ slot, slot ∈ x.settled ↔ ∃ y ∈ o.outcomes requests o.downloads,
        y.1 ∈ x.download.passed o ∧ o.key y = slot) ∧
      (∀ e ∈ x.download.passed o, o.network.terminalSlot e ∈ x.settled ∨
        ∃ s, (e, some s) ∈ o.outcomes requests o.downloads ∧
          s.slot ≠ o.network.terminalSlot e) ∧
      (o.source.Placed → ∀ e ∈ x.download.passed o, o.network.terminalSlot e ∈ x.settled) ∧
      (o.source.Placed → o.range.Fits o.network → x.Fetched →
        x.Finished ∨ ∃ y, Step o x y) := by
  obtain ⟨done, coming, hpast⟩ := hr.past_of_running hrun
  have hforeign (e : Epoch) (he : e ∈ x.download.passed o) :
      o.network.terminalSlot e ∈ x.settled ∨ ∃ s,
        (e, some s) ∈ o.outcomes requests o.downloads ∧ s.slot ≠ o.network.terminalSlot e := by
    obtain ⟨out, hout⟩ := hpast.mem_outcomes he
    cases out with
    | none => exact .inl (hpast.mem_settled.2 ⟨_, hout, he, rfl⟩)
    | some s =>
      by_cases hs : s.slot = o.network.terminalSlot e
      · exact .inl (hpast.mem_settled.2 ⟨_, hout, he, hs⟩)
      · exact .inr ⟨s, hout, hs⟩
  refine ⟨fun slot => hpast.mem_settled, hforeign, fun hsrc e he => ?_, fun hsrc hfit hfetched => ?_⟩
  · rcases hforeign e he with hsettled | ⟨s, hs, hother⟩
    · exact hsettled
    · obtain ⟨i, state, hstate, hsnapshot⟩ := Order.mem_outcomes hs
      refine absurd ?_ hother
      rw [hsnapshot]
      exact hsrc _ i state hstate
  · by_cases hstep : ∃ y, Step o x y
    · exact .inr hstep
    · exact .inl (hr.finished_of_fetched hfit hsrc hfetched hstep)

/-- Epoch 0 from a source whose states carry the next slot. -/
def shiftedOrder : Order := carryingOrder (· + 1)

/-- Where the moves of that download end. -/
def shiftedEnd : Download := ((start shiftedOrder 3 .none).download.drain shiftedOrder).2

lemma crash_shiftedEnd : shiftedEnd.crash = none := by cbv

lemma passed_shiftedEnd : shiftedEnd.passed shiftedOrder = [0, 1, 2] := by cbv

lemma keys_shifted : (shiftedOrder.outcomes .none shiftedOrder.downloads).map shiftedOrder.key
    = [1, 2, 3] := by cbv

/-- All epochs are moved past, and the slots after their own are settled. -/
theorem shifted_settled_by_key : ∃ x, Reached shiftedOrder 3 .none x ∧ x.download.crash = none ∧
    x.download.passed shiftedOrder = [0, 1, 2] ∧ ∀ slot, slot ∈ x.settled ↔ slot ∈ [1, 2, 3] := by
  obtain ⟨x, hr, hx⟩ := drain_steps (o := shiftedOrder) (start shiftedOrder 3 .none)
  have hx : x.download = shiftedEnd := hx
  have hrun : x.download.crash = none := hx ▸ crash_shiftedEnd
  have hpassed : x.download.passed shiftedOrder = [0, 1, 2] := hx ▸ passed_shiftedEnd
  obtain ⟨hkeys, -⟩ := Reached.settled_by_key hr hrun
  refine ⟨x, hr, hrun, hpassed, fun slot => ?_⟩
  have hall : ∀ y ∈ shiftedOrder.outcomes .none shiftedOrder.downloads,
      y.1 ∈ x.download.passed shiftedOrder := by
    intro y hy
    have hepoch : y.1 ∈ shiftedOrder.downloads := by
      rw [← shiftedOrder.epochs_outcomes .none shiftedOrder.downloads]
      exact List.mem_map_of_mem hy
    rw [hpassed]
    exact hepoch
  rw [hkeys, ← keys_shifted, List.mem_map]
  exact ⟨fun ⟨y, hy, _, hkey⟩ => ⟨y, hy, hkey⟩, fun ⟨y, hy, hkey⟩ => ⟨y, hy, hall y hy, hkey⟩⟩

/-- The fetching party has come to its end, and the other one waits without end for a slot that is
not settled. -/
theorem waits_without_end : ∃ x, Reached shiftedOrder 3 .none x ∧ x.download.crash = none ∧
    x.Fetched ∧ x.download.assembling = true ∧ (¬ ∃ y, Step shiftedOrder x y) ∧
    ∃ e ∈ x.download.passed shiftedOrder, shiftedOrder.network.terminalSlot e ∉ x.settled := by
  obtain ⟨x, hr, hx⟩ := drain_steps (o := shiftedOrder) (start shiftedOrder 3 .none)
  have hx : x.download = shiftedEnd := hx
  have hrun : x.download.crash = none := hx ▸ crash_shiftedEnd
  have hpassed : x.download.passed shiftedOrder = [0, 1, 2] := hx ▸ passed_shiftedEnd
  refine ⟨x, hr, hrun, ?_, ?_, ?_, 0, ?_, ?_⟩
  · rw [Fetched, hx]
    constructor <;> cbv
  · rw [hx]
    cbv
  · rw [stuck_iff, hx]
    refine ⟨by cbv, fun branch party => ?_⟩
    cases branch <;> cases party <;> cbv
  · rw [hpassed]
    decide
  · obtain ⟨done, coming, hpast⟩ := Reached.past_of_running hr hrun
    rw [hpast.mem_settled]
    rintro ⟨y, hy, -, hkey⟩
    have hmem : shiftedOrder.network.terminalSlot 0 ∈ [1, 2, 3] := by
      rw [← keys_shifted, ← hkey]
      exact List.mem_map_of_mem hy
    exact absurd hmem (by decide)

end EpochRewards.Download.Trace
