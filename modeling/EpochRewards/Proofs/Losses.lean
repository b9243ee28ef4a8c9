import EpochRewards.Proofs.Coverage
import Mathlib.Data.List.Sort

/-!
What a window costs that is given up.

The epochs reported for it follow from the number of its last epoch alone, while the gates of
its rows look at the slots of its snapshots. They agree: what is reported is what the window
would have written, so that every requested epoch depends on two windows, on one of them for its
validators and on the other for the rest.
-/

namespace EpochRewards.SlotRange

variable {r : SlotRange} {net : Network} {w : Window} {e : Nat}

/-- A window that is given up costs the rows that its gates let through. -/
theorem coveredBy_eq_gates (h : r.Fits net) (he : e ≤ r.finalEpoch + windowReach)
    (hw : w.EndsAt net e) :
    r.coveredBy e = (if r.writesValidatorRows w then [e] else [])
      ++ if r.writesEpochRows w then [e - windowReach] else [] := by
  rw [writesValidatorRows_eq h he hw, writesEpochRows_eq h he hw, coveredBy, List.filter_cons]
  by_cases hr : windowReach ≤ e
  · rw [if_pos hr, decide_eq_true hr, Bool.true_and, List.filter_singleton, Bool.cond_eq_ite]
    split <;> rfl
  · rw [if_neg hr, decide_eq_false hr, Bool.false_and, List.filter_nil]
    split <;> rfl

/-! ### The windows of an epoch -/

/-- The members of an ascending list that pass a test, if another such list tells which. -/
lemma filter_eq_of_ascending {xs ys : List Nat} {test : Nat → Bool} (hx : xs.Pairwise (· < ·))
    (hy : ys.Pairwise (· < ·)) (h : ∀ x, x ∈ xs ∧ test x = true ↔ x ∈ ys) : xs.filter test = ys :=
  List.Pairwise.eq_of_mem_iff (hx.filter test) hy fun x => List.mem_filter.trans (h x)

/-- A requested epoch is lost with two windows only. -/
lemma Fits.filter_coveredBy (h : r.Fits net) (he : e ∈ r.analysedEpochs.toList) :
    r.windowEpochs.toList.filter (fun n => (r.coveredBy n).contains e) = [e, e + windowReach] := by
  obtain ⟨hnext, hprev⟩ := h.mem_windowEpochs he
  refine filter_eq_of_ascending (EpochSpan.pairwise_toList _) ?_ fun n => ?_
  · exact List.pairwise_pair.2 (Nat.lt_add_of_pos_right (Nat.succ_pos 1))
  · rw [List.contains_iff_mem, mem_coveredBy, List.mem_pair]
    constructor
    · exact fun hn => hn.2.2
    · rintro (rfl | rfl)
      · exact ⟨hnext, he, .inl rfl⟩
      · exact ⟨hprev, he, .inr rfl⟩

section Windows

variable {window : Epoch → Window}

/-- One window writes the validator rows of a requested epoch. -/
lemma Fits.filter_validators (h : r.Fits net)
    (hw : ∀ n ∈ r.windowEpochs.toList, (window n).EndsAt net n)
    (he : e ∈ r.analysedEpochs.toList) :
    r.windowEpochs.toList.filter
      (fun n => r.writesValidatorRows (window n) && (window n).next.epoch == e) = [e] := by
  obtain ⟨hnext, -⟩ := h.mem_windowEpochs he
  refine filter_eq_of_ascending (EpochSpan.pairwise_toList _) (List.pairwise_singleton _ _)
    fun n => ?_
  rw [List.mem_singleton, Bool.and_eq_true, beq_iff_eq]
  constructor
  · rintro ⟨hn, -, hepoch⟩
    rw [← hepoch, (hw n hn).next.epoch]
  · rintro rfl
    refine ⟨hnext, ?_, (hw n hnext).next.epoch⟩
    rw [writesValidatorRows_eq h (h.le_lastWindow hnext) (hw n hnext)]
    exact EpochSpan.contains_iff.2 he

/-- One window writes the other rows of a requested epoch. -/
lemma Fits.filter_others (h : r.Fits net)
    (hw : ∀ n ∈ r.windowEpochs.toList, (window n).EndsAt net n)
    (he : e ∈ r.analysedEpochs.toList) :
    r.windowEpochs.toList.filter
      (fun n => r.writesEpochRows (window n) && (window n).prev.epoch == e)
        = [e + windowReach] := by
  obtain ⟨-, hprev⟩ := h.mem_windowEpochs he
  refine filter_eq_of_ascending (EpochSpan.pairwise_toList _) (List.pairwise_singleton _ _)
    fun n => ?_
  rw [List.mem_singleton, Bool.and_eq_true, beq_iff_eq]
  constructor
  · rintro ⟨hn, hgate, hepoch⟩
    rw [writesEpochRows_eq h (h.le_lastWindow hn) (hw n hn), Bool.and_eq_true,
      decide_eq_true_eq] at hgate
    rw [((hw n hn).prev hgate.1).epoch] at hepoch
    rw [← hepoch, Nat.sub_add_cancel hgate.1]
  · rintro rfl
    have hreach : windowReach ≤ e + windowReach := Nat.le_add_left _ _
    refine ⟨hprev, ?_, ?_⟩
    · rw [writesEpochRows_eq h (h.le_lastWindow hprev) (hw _ hprev), decide_eq_true hreach,
        Bool.true_and, Nat.add_sub_cancel]
      exact EpochSpan.contains_iff.2 he
    · rw [((hw _ hprev).prev hreach).epoch, Nat.add_sub_cancel]

end Windows

/-- **What is lost is what would have been written.** For slots that can be counted up to two
epochs after the last one, a window that is given up is reported with the requested epochs whose
rows its gates let through. Every requested epoch is reported with exactly two windows of the
range: the one that writes its validator rows and the one that writes its other rows. -/
theorem lost_as_gated {initSlot finalSlot : Slot} (hle : initSlot ≤ finalSlot)
    (hslots : (net.epochOf finalSlot + 3) * net.slotsPerEpoch.val ≤ Word.max) :
    ∃ r, ofSlots net initSlot finalSlot = .ok r ∧
      (∀ e ∈ r.windowEpochs.toList, ∀ w : Window, w.EndsAt net e →
        r.coveredBy e = (if r.writesValidatorRows w then [e] else [])
          ++ if r.writesEpochRows w then [e - windowReach] else []) ∧
      ∀ window : Epoch → Window, (∀ e ∈ r.windowEpochs.toList, (window e).EndsAt net e) →
        ∀ e ∈ EpochSpan.toList ⟨net.epochOf initSlot, net.epochOf finalSlot⟩,
          r.windowEpochs.toList.filter (fun n => (r.coveredBy n).contains e)
              = [e, e + windowReach] ∧
            r.windowEpochs.toList.filter
                (fun n => r.writesValidatorRows (window n) && (window n).next.epoch == e) = [e] ∧
              r.windowEpochs.toList.filter
                  (fun n => r.writesEpochRows (window n) && (window n).prev.epoch == e)
                = [e + windowReach] := by
  obtain ⟨r, hr, hfits, hepochs⟩ := ofSlots_fits hle hslots
  refine ⟨r, hr, fun e he w hw => ?_, fun window hw e he => ?_⟩
  · exact coveredBy_eq_gates hfits (hfits.le_lastWindow he) hw
  · rw [← hepochs] at he
    exact ⟨hfits.filter_coveredBy he, hfits.filter_validators hw he, hfits.filter_others hw he⟩

/-- From within epoch 0, whose first windows start before genesis, into epoch 2: the loss of
epoch 1 shows with the windows ending in epochs 1 and 3. -/
theorem minimal_lost_as_gated :
    let snap (e : Epoch) : Snapshot :=
      { Snapshot.placeholder e (Network.minimal.terminalSlot e) with stateRoot := .ofNat 32 1 }
    (5 : Nat) ≤ 20 ∧
      (Network.minimal.epochOf 20 + 3) * Network.minimal.slotsPerEpoch.val ≤ Word.max ∧
        ∃ r, ofSlots Network.minimal 5 20 = .ok r ∧
          (∀ e ∈ r.windowEpochs.toList, (Window.endingAt snap e).EndsAt Network.minimal e) ∧
          r.windowEpochs.toList.filter (fun n => (r.coveredBy n).contains 1) = [1, 3] ∧
          r.windowEpochs.toList.filter (fun n => r.writesValidatorRows (Window.endingAt snap n)
            && (Window.endingAt snap n).next.epoch == 1) = [1] ∧
          r.windowEpochs.toList.filter (fun n => r.writesEpochRows (Window.endingAt snap n)
            && (Window.endingAt snap n).prev.epoch == 1) = [3] := by
  intro snap
  have hslots :
      (Network.minimal.epochOf 20 + 3) * Network.minimal.slotsPerEpoch.val ≤ Word.max := by
    decide
  obtain ⟨r, hr, -, hlost⟩ := lost_as_gated (show (5 : Slot) ≤ 20 by decide) hslots
  have hends : ∀ e ∈ r.windowEpochs.toList, (Window.endingAt snap e).EndsAt Network.minimal e :=
    fun e _ => Window.endsAt_endingAt ⟨rfl, rfl, rfl⟩ fun _ => ⟨rfl, rfl, rfl⟩
  exact ⟨by decide, hslots, r, hr, hends, hlost _ hends 1 (by decide)⟩

end EpochRewards.SlotRange
