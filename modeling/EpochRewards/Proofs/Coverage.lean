import EpochRewards.Proofs.Gating

/-!
Which epochs the windows of a range describe.

One window ends in each requested epoch and in the two after it. Its validators are written for
the epoch in which it ends, its other rows for the epoch with which it starts. Each of the two
gates lets every requested epoch through once, in order, and no other one.
-/

namespace EpochRewards

namespace Window

/-- The snapshot `n` epochs before `e`. The placeholder of slot 0 stands for the epochs before
genesis. -/
def snapshotBefore (snap : Epoch → Snapshot) (e n : Nat) : Snapshot :=
  if e < n then .placeholder 0 0 else snap (e - n)

/-- The window of an epoch and the two before it. -/
def endingAt (snap : Epoch → Snapshot) (e : Epoch) : Window :=
  ⟨snapshotBefore snap e windowReach, snapshotBefore snap e 1, snap e⟩

variable {snap : Epoch → Snapshot} {net : Network} {e : Nat}

lemma endsAt_endingAt (hnext : (snap e).TakenAt net e)
    (hprev : windowReach ≤ e → (snap (e - windowReach)).TakenAt net (e - windowReach)) :
    (endingAt snap e).EndsAt net e := by
  refine ⟨hnext, fun hr => ?_, fun hr => ?_⟩
  · have hback : (endingAt snap e).prev = snap (e - windowReach) := if_neg (Nat.not_lt.2 hr)
    rw [hback]
    exact hprev hr
  · have hback : (endingAt snap e).prev = .placeholder 0 0 := if_pos hr
    rw [hback]
    rfl

/-- The first snapshot of a window two epochs after `e` is that of `e`. -/
lemma prev_endingAt (snap : Epoch → Snapshot) (e : Nat) :
    (endingAt snap (e + windowReach)).prev = snap e := by
  have hback : ¬ e + windowReach < windowReach := Nat.not_lt.2 (Nat.le_add_left _ _)
  rw [endingAt, snapshotBefore, if_neg hback, Nat.add_sub_cancel]

end Window

namespace SlotRange

/-- The windows of a range. -/
def windows (r : SlotRange) (snap : Epoch → Snapshot) : List Window :=
  r.windowEpochs.toList.map (Window.endingAt snap)

variable {r : SlotRange} {net : Network} {snap : Epoch → Snapshot}

/-- All snapshots that a range needs are there. -/
def Downloaded (r : SlotRange) (net : Network) (snap : Epoch → Snapshot) : Prop :=
  ∀ e ∈ r.downloadEpochs.toList, (snap e).TakenAt net e

lemma Fits.endsAt (h : r.Fits net) (hsnap : r.Downloaded net snap) :
    ∀ e ∈ r.windowEpochs.toList,
      e ≤ r.finalEpoch + windowReach ∧ (Window.endingAt snap e).EndsAt net e := by
  have harith (init final e : Nat) (hi : init ≤ e) (hf : e ≤ final) :
      init - windowReach ≤ e ∧ init - windowReach ≤ e - windowReach ∧ e - windowReach ≤ final := by
    omega
  intro e he
  obtain ⟨hfirst, hlast⟩ := EpochSpan.mem_toList.1 he
  obtain ⟨hnext, hback, hle⟩ := harith _ _ e hfirst hlast
  have hwindow : (Window.endingAt snap e).EndsAt net e :=
    Window.endsAt_endingAt (hsnap e (EpochSpan.mem_toList.2 ⟨hnext, hlast⟩))
      fun _ => hsnap _ (EpochSpan.mem_toList.2 ⟨hback, hle⟩)
  exact ⟨Nat.le_trans hlast (Nat.le_of_eq h.lastWindow), hwindow⟩

/-- Of the windows, those that a test lets through according to the epochs in which they end. -/
lemma filter_windows {test : Window → Bool} {gate : Epoch → Bool}
    (h : ∀ e ∈ r.windowEpochs.toList, test (Window.endingAt snap e) = gate e) :
    (r.windows snap).filter test
      = (r.windowEpochs.toList.filter gate).map (Window.endingAt snap) := by
  rw [windows, List.filter_map]
  congr 1
  exact List.filter_congr h

/-- The windows that write validator rows end in the requested epochs. -/
lemma Fits.epochs_validatorRows (h : r.Fits net) (hsnap : r.Downloaded net snap) :
    ((r.windows snap).filter r.writesValidatorRows).map (·.next.epoch)
      = r.analysedEpochs.toList := by
  have hends := h.endsAt hsnap
  rw [filter_windows fun e he => writesValidatorRows_eq h (hends e he).1 (hends e he).2,
    List.map_map, h.filter_validatorRows]
  refine (List.map_congr_left fun e he => ?_).trans (List.map_id _)
  have hmem : e ∈ r.windowEpochs.toList := by
    rw [← h.filter_validatorRows] at he
    exact List.mem_of_mem_filter he
  exact (hends e hmem).2.next.epoch

/-- The windows that write the other rows start with the requested epochs. -/
lemma Fits.epochs_epochRows (h : r.Fits net) (hsnap : r.Downloaded net snap) :
    ((r.windows snap).filter r.writesEpochRows).map (·.prev.epoch)
      = r.analysedEpochs.toList := by
  have hends := h.endsAt hsnap
  rw [filter_windows fun e he => writesEpochRows_eq h (hends e he).1 (hends e he).2,
    List.map_map, h.filter_epochRows, List.map_map]
  refine (List.map_congr_left fun e he => ?_).trans (List.map_id _)
  have harith (first last : Nat) (hf : first ≤ e) (hl : e ≤ last) :
      first - windowReach ≤ e ∧ e ≤ last + windowReach := by omega
  obtain ⟨hfirst, hlast⟩ := EpochSpan.mem_toList.1 he
  have hmem : e ∈ r.downloadEpochs.toList := by
    refine EpochSpan.mem_toList.2 ?_
    rw [downloadEpochs, h.lastWindow]
    exact harith _ _ hfirst hlast
  show (Window.endingAt snap (e + windowReach)).prev.epoch = e
  rw [Window.prev_endingAt]
  exact (hsnap e hmem).epoch

/-- The range of two slots that can be counted, as are those of two epochs more. -/
lemma ofSlots_fits {initSlot finalSlot : Slot} (hle : initSlot ≤ finalSlot)
    (hslots : net.Counts (net.epochOf finalSlot + windowReach)) :
    ∃ r, ofSlots net initSlot finalSlot = .ok r ∧ r.Fits net ∧
      r.analysedEpochs = ⟨net.epochOf initSlot, net.epochOf finalSlot⟩ :=
  ⟨_, if_neg (Nat.not_lt.2 hle), fits_ofSlots hslots, rfl⟩

/-- **Every requested epoch is described once.** For slots that can be counted up to two epochs
after the last one, the windows that write validator rows end in the requested epochs and those
that write the other rows start with them, one for each and in order. -/
theorem describes_each_epoch_once {initSlot finalSlot : Slot} (hle : initSlot ≤ finalSlot)
    (hslots : (net.epochOf finalSlot + 3) * net.slotsPerEpoch.val ≤ Word.max)
    (hsnap : ∀ e, net.epochOf initSlot ≤ e + windowReach →
      e ≤ net.epochOf finalSlot + windowReach → (snap e).TakenAt net e) :
    ∃ r, ofSlots net initSlot finalSlot = .ok r ∧
      ((r.windows snap).filter r.writesValidatorRows).map (·.next.epoch)
        = EpochSpan.toList ⟨net.epochOf initSlot, net.epochOf finalSlot⟩ ∧
      ((r.windows snap).filter r.writesEpochRows).map (·.prev.epoch)
        = EpochSpan.toList ⟨net.epochOf initSlot, net.epochOf finalSlot⟩ := by
  obtain ⟨r, hr, hfits, hepochs⟩ := ofSlots_fits hle hslots
  have hinit : r.initEpoch = net.epochOf initSlot := congrArg EpochSpan.first hepochs
  have hfinal : r.finalEpoch = net.epochOf finalSlot := congrArg EpochSpan.last hepochs
  have hdownloaded : r.Downloaded net snap := by
    intro e he
    obtain ⟨hfirst, hlast⟩ := EpochSpan.mem_toList.1 he
    rw [downloadEpochs, hinit] at hfirst
    rw [downloadEpochs, hfits.lastWindow, hfinal] at hlast
    exact hsnap e (Nat.sub_le_iff_le_add.1 hfirst) hlast
  rw [← hepochs]
  exact ⟨r, hr, hfits.epochs_validatorRows hdownloaded, hfits.epochs_epochRows hdownloaded⟩

/-- From within epoch 0, whose first windows start before genesis, into epoch 2. -/
theorem minimal_describes_each_epoch_once :
    let snap (e : Epoch) : Snapshot :=
      { Snapshot.placeholder e (Network.minimal.terminalSlot e) with stateRoot := .ofNat 32 1 }
    (5 : Nat) ≤ 20 ∧
      (Network.minimal.epochOf 20 + 3) * Network.minimal.slotsPerEpoch.val ≤ Word.max ∧
        (∀ e, Network.minimal.epochOf 5 ≤ e + windowReach →
          e ≤ Network.minimal.epochOf 20 + windowReach → (snap e).TakenAt Network.minimal e) ∧
        ∃ r, ofSlots Network.minimal 5 20 = .ok r ∧
          ((r.windows snap).filter r.writesValidatorRows).map (·.next.epoch) = [0, 1, 2] ∧
          ((r.windows snap).filter r.writesEpochRows).map (·.prev.epoch) = [0, 1, 2] := by
  intro snap
  have hslots : (Network.minimal.epochOf 20 + 3) * Network.minimal.slotsPerEpoch.val ≤ Word.max := by
    decide
  have hsnap : ∀ e, Network.minimal.epochOf 5 ≤ e + windowReach →
      e ≤ Network.minimal.epochOf 20 + windowReach → (snap e).TakenAt Network.minimal e :=
    fun e _ _ => ⟨rfl, rfl, rfl⟩
  exact ⟨by decide, hslots, hsnap, describes_each_epoch_once (by decide) hslots hsnap⟩

end SlotRange

end EpochRewards
