import EpochRewards.SlotRange
import Mathlib.Data.List.Nodup
import Mathlib.Tactic.Common

/-!
Which rows a window gives rise to.

As long as the slots of a range and two epochs more are words, epochs and their last slots
determine each other. The rows about the validators then belong to the requested epochs in which
a window ends and the other rows to those with which one starts.
-/

namespace EpochRewards

/-! ### Spans -/

/-- The part of a range between two bounds. -/
lemma filter_range' (first n a b : Nat) :
    (List.range' first n).filter (fun e => a ≤ e && e ≤ b)
      = List.range' (max first a) (min (first + n) (b + 1) - max first a) := by
  induction n generalizing first with
  | zero =>
    have hzero : min (first + 0) (b + 1) - max first a = 0 := by omega
    rw [hzero]
    rfl
  | succ n ih =>
    have hend : first + 1 + n = first + (n + 1) := by omega
    rw [List.range'_succ, List.filter_cons, ih (first + 1), hend]
    split
    · next h =>
      rw [Bool.and_eq_true, decide_eq_true_eq, decide_eq_true_eq] at h
      have hcount : min (first + (n + 1)) (b + 1) - max first a
          = min (first + (n + 1)) (b + 1) - max (first + 1) a + 1 := by omega
      have hfirst : max first a = first := by omega
      have hnext : max (first + 1) a = first + 1 := by omega
      rw [hcount, hfirst, hnext, List.range'_succ]
    · next h =>
      rw [Bool.and_eq_true, decide_eq_true_eq, decide_eq_true_eq] at h
      by_cases ha : first < a
      · have hsame : max (first + 1) a = max first a := by omega
        rw [hsame]
      · have hzero : min (first + (n + 1)) (b + 1) - max first a = 0 := by omega
        have hnone : min (first + (n + 1)) (b + 1) - max (first + 1) a = 0 := by omega
        rw [hzero, hnone]
        rfl

namespace EpochSpan

variable {s u : EpochSpan}

lemma mem_toList {e : Epoch} : e ∈ s.toList ↔ s.first ≤ e ∧ e ≤ s.last := by
  have arith (first last n : Nat) :
      first ≤ n ∧ n < first + (last + 1 - first) ↔ first ≤ n ∧ n ≤ last := by omega
  rw [toList, List.mem_range'_1]
  exact arith s.first s.last e

lemma contains_iff {e : Epoch} : s.contains e = true ↔ e ∈ s.toList := by
  rw [mem_toList, contains, Bool.and_eq_true, decide_eq_true_eq, decide_eq_true_eq]

lemma nodup_toList (s : EpochSpan) : s.toList.Nodup := List.nodup_range'

lemma pairwise_toList (s : EpochSpan) : s.toList.Pairwise (· < ·) := List.pairwise_lt_range'

/-- A span within another one. -/
lemma filter_contains (hf : s.first ≤ u.first) (hl : u.last ≤ s.last) :
    s.toList.filter u.contains = u.toList := by
  have h := filter_range' s.first (s.last + 1 - s.first) u.first u.last
  have hfirst : max s.first u.first = u.first := Nat.max_eq_right hf
  have hcount (a b c d : Nat) (hac : a ≤ c) (hdb : d ≤ b) :
      min (a + (b + 1 - a)) (d + 1) - c = d + 1 - c := by omega
  rw [hfirst, hcount s.first s.last u.first u.last hf hl] at h
  exact h

lemma toList_add (first last n : Nat) :
    toList ⟨first + n, last + n⟩ = (toList ⟨first, last⟩).map (· + n) := by
  have hcount : last + n + 1 - (first + n) = last + 1 - first := by omega
  have hshift : (· + n) = (n + ·) := funext fun e => Nat.add_comm e n
  rw [toList, toList, hcount, hshift, List.map_add_range', Nat.add_comm n first]

end EpochSpan

/-! ### Slots -/

namespace Network

variable {net : Network} {e f : Nat}

/-- The slots of an epoch can be counted. -/
def Counts (net : Network) (e : Epoch) : Prop := (e + 1) * net.slotsPerEpoch.val ≤ Word.max

instance (net : Network) (e : Epoch) : Decidable (net.Counts e) :=
  inferInstanceAs (Decidable (_ ≤ _))

lemma Counts.mono (h : net.Counts f) (he : e ≤ f) : net.Counts e :=
  Nat.le_trans (Nat.mul_le_mul_right _ (Nat.succ_le_succ he)) h

lemma Counts.succ_le (h : net.Counts e) : e + 1 ≤ Word.max :=
  Nat.le_trans (Nat.le_mul_of_pos_right _ net.slotsPerEpoch.pos) h

lemma terminalSlot_eq (h : net.Counts e) :
    net.terminalSlot e = (e + 1) * net.slotsPerEpoch.val - 1 := by
  have hs : Word.satAdd e 1 = e + 1 := Nat.min_eq_left h.succ_le
  have hm : Word.satMul (e + 1) net.slotsPerEpoch.val = (e + 1) * net.slotsPerEpoch.val :=
    Nat.min_eq_left h
  rw [terminalSlot, startSlot, hs, hm]

/-- The last slot of an epoch lies in it. -/
lemma epochOf_terminalSlot (h : net.Counts e) : net.epochOf (net.terminalSlot e) = e := by
  have hpos := net.slotsPerEpoch.pos
  rw [epochOf, terminalSlot_eq h]
  refine Nat.div_eq_of_lt_le ?_ ?_
  · rw [Nat.add_mul]
    omega
  · have hmul : 0 < (e + 1) * net.slotsPerEpoch.val := Nat.mul_pos (Nat.succ_pos e) hpos
    omega

/-- A slot does not come after its epoch or a later one has ended. -/
lemma le_terminalSlot_iff (h : net.Counts e) (slot : Nat) :
    slot ≤ net.terminalSlot e ↔ net.epochOf slot ≤ e := by
  have hpos := net.slotsPerEpoch.pos
  have hmul := Nat.mul_pos (Nat.succ_pos e) hpos
  rw [terminalSlot_eq h, Nat.le_sub_one_iff_lt hmul, ← Nat.div_lt_iff_lt_mul hpos, epochOf]
  exact Nat.lt_succ_iff

lemma terminalSlot_le_iff (h : net.Counts f) (he : net.Counts e) :
    net.terminalSlot e ≤ net.terminalSlot f ↔ e ≤ f := by
  rw [le_terminalSlot_iff h, epochOf_terminalSlot he]

lemma nodup_terminalSlots {es : List Epoch} (hes : es.Nodup) (h : ∀ e ∈ es, net.Counts e) :
    (es.map net.terminalSlot).Nodup := by
  refine List.Nodup.map_on (fun x hx y hy hxy => ?_) hes
  rw [← epochOf_terminalSlot (h x hx), hxy, epochOf_terminalSlot (h y hy)]

end Network

/-! ### Windows of a range -/

/-- The snapshot of an epoch: of its last slot, and no placeholder. -/
structure Snapshot.TakenAt (net : Network) (e : Epoch) (s : Snapshot) : Prop where
  epoch : s.epoch = e
  slot : s.slot = net.terminalSlot e
  real : s.isPlaceholder = false

/-- The window of an epoch and the two before it, of which placeholders stand for those before
genesis. -/
structure Window.EndsAt (net : Network) (e : Epoch) (w : Window) : Prop where
  next : w.next.TakenAt net e
  prev : windowReach ≤ e → w.prev.TakenAt net (e - windowReach)
  beforeGenesis : e < windowReach → w.prev.isPlaceholder = true

namespace SlotRange

/-- A range of slots that are words, as are those of the two epochs after it. -/
structure Fits (r : SlotRange) (net : Network) : Prop where
  init : r.initEpoch = net.epochOf r.initSlot
  final : r.finalSlot = net.terminalSlot r.finalEpoch
  counts : net.Counts (r.finalEpoch + windowReach)

variable {r : SlotRange} {net : Network} {w : Window} {e : Nat}

lemma fits_ofSlots {initSlot finalSlot : Slot}
    (h : net.Counts (net.epochOf finalSlot + windowReach)) :
    Fits ⟨initSlot, net.terminalSlot (net.epochOf finalSlot), net.epochOf initSlot,
      net.epochOf finalSlot⟩ net :=
  ⟨rfl, rfl, h⟩

lemma Fits.counts_of_le (h : r.Fits net) (he : e ≤ r.finalEpoch + windowReach) : net.Counts e :=
  h.counts.mono he

/-- The last window ends two epochs after the range. -/
lemma Fits.lastWindow (h : r.Fits net) :
    Word.satAdd r.finalEpoch windowReach = r.finalEpoch + windowReach :=
  Nat.min_eq_left (Nat.le_of_succ_le h.counts.succ_le)

lemma Fits.le_lastWindow (h : r.Fits net) (he : e ∈ r.windowEpochs.toList) :
    e ≤ r.finalEpoch + windowReach :=
  Nat.le_trans (EpochSpan.mem_toList.1 he).2 (Nat.le_of_eq h.lastWindow)

/-- The windows about a requested epoch are among those of the range. -/
lemma Fits.mem_windowEpochs (h : r.Fits net) (he : e ∈ r.analysedEpochs.toList) :
    e ∈ r.windowEpochs.toList ∧ e + windowReach ∈ r.windowEpochs.toList := by
  have hlast : r.windowEpochs.last = r.finalEpoch + windowReach := h.lastWindow
  obtain ⟨hinit, hfinal⟩ : r.initEpoch ≤ e ∧ e ≤ r.finalEpoch := EpochSpan.mem_toList.1 he
  constructor
  · refine EpochSpan.mem_toList.2 ⟨hinit, ?_⟩
    rw [hlast]
    exact Nat.le_trans hfinal (Nat.le_add_right _ _)
  · refine EpochSpan.mem_toList.2 ⟨Nat.le_trans hinit (Nat.le_add_right _ _), ?_⟩
    rw [hlast]
    exact Nat.add_le_add_right hfinal _

lemma Fits.counts_downloads (h : r.Fits net) : ∀ e ∈ r.downloadEpochs.toList, net.Counts e := by
  intro e he
  have hlast : r.downloadEpochs.last = r.finalEpoch + windowReach := h.lastWindow
  exact h.counts_of_le (Nat.le_trans (EpochSpan.mem_toList.1 he).2 (Nat.le_of_eq hlast))

/-- Every epoch that is downloaded has a last slot of its own. -/
lemma Fits.nodup_lastSlots (h : r.Fits net) :
    (r.downloadEpochs.toList.map net.terminalSlot).Nodup :=
  Network.nodup_terminalSlots (EpochSpan.nodup_toList _) h.counts_downloads

/-- The last slot of an epoch is requested if the epoch is. -/
lemma Fits.contains_slot (h : r.Fits net) (he : net.Counts e) :
    (decide (r.initSlot ≤ net.terminalSlot e) && decide (net.terminalSlot e ≤ r.finalSlot))
      = r.analysedEpochs.contains e := by
  have hfinal : net.Counts r.finalEpoch := h.counts_of_le (Nat.le_add_right _ _)
  have hi : r.initSlot ≤ net.terminalSlot e ↔ r.initEpoch ≤ e := by
    rw [h.init]
    exact Network.le_terminalSlot_iff he r.initSlot
  have hf : net.terminalSlot e ≤ r.finalSlot ↔ e ≤ r.finalEpoch := by
    rw [h.final]
    exact Network.terminalSlot_le_iff hfinal he
  rw [EpochSpan.contains, decide_eq_decide.2 hi, decide_eq_decide.2 hf]
  rfl

/-- The validators of a window are those of a requested epoch in which it ends. -/
theorem writesValidatorRows_eq (h : r.Fits net) (he : e ≤ r.finalEpoch + windowReach)
    (hw : w.EndsAt net e) : r.writesValidatorRows w = r.analysedEpochs.contains e := by
  rw [writesValidatorRows, hw.next.slot]
  exact h.contains_slot (h.counts_of_le he)

/-- The other rows of a window are those of a requested epoch with which it starts. -/
theorem writesEpochRows_eq (h : r.Fits net) (he : e ≤ r.finalEpoch + windowReach)
    (hw : w.EndsAt net e) :
    r.writesEpochRows w
      = (decide (windowReach ≤ e) && r.analysedEpochs.contains (e - windowReach)) := by
  by_cases hr : windowReach ≤ e
  · have hprev := hw.prev hr
    have hcounts : net.Counts (e - windowReach) :=
      h.counts_of_le (Nat.le_trans (Nat.sub_le _ _) he)
    have hcontains := h.contains_slot hcounts
    rw [writesEpochRows, hprev.real, hprev.slot, Bool.not_false, Bool.true_and, hcontains,
      decide_eq_true hr, Bool.true_and]
  · rw [writesEpochRows, hw.beforeGenesis (Nat.lt_of_not_le hr), decide_eq_false hr]
    rfl

/-- A requested epoch has rows from the window that ends in it and from the one two later. -/
lemma mem_coveredBy {n : Nat} :
    e ∈ r.coveredBy n ↔ e ∈ r.analysedEpochs.toList ∧ (n = e ∨ n = e + windowReach) := by
  have hfirst : (e ∈ if windowReach ≤ n then [n - windowReach] else []) ↔ n = e + windowReach := by
    have arith (a b c : Nat) (h : c ≤ b) : a = b - c ↔ b = a + c := by omega
    split
    · next h => rw [List.mem_singleton, arith e n windowReach h]
    · next h =>
      refine ⟨fun hm => absurd hm List.not_mem_nil, fun hn => absurd ?_ h⟩
      rw [hn]
      exact Nat.le_add_left _ _
  rw [coveredBy, List.mem_filter, List.mem_cons, EpochSpan.contains_iff, hfirst, and_comm]
  exact and_congr_right fun _ => or_congr_left eq_comm

/-- Of the epochs in which a window ends, those whose validators are written. -/
lemma Fits.filter_validatorRows (h : r.Fits net) :
    r.windowEpochs.toList.filter r.analysedEpochs.contains = r.analysedEpochs.toList := by
  refine EpochSpan.filter_contains (s := r.windowEpochs) (Nat.le_refl _) ?_
  exact Nat.le_trans (Nat.le_add_right _ windowReach) (Nat.le_of_eq h.lastWindow.symm)

/-- Of the epochs in which a window ends, those two after an epoch with other rows. -/
lemma Fits.filter_epochRows (h : r.Fits net) :
    r.windowEpochs.toList.filter
        (fun e => decide (windowReach ≤ e) && r.analysedEpochs.contains (e - windowReach))
      = r.analysedEpochs.toList.map (· + windowReach) := by
  have hgate (e a b n : Nat) : (decide (n ≤ e) && (decide (a ≤ e - n) && decide (e - n ≤ b)))
      = (decide (a + n ≤ e) && decide (e ≤ b + n)) := by
    rw [Bool.eq_iff_iff]
    simp only [Bool.and_eq_true, decide_eq_true_eq]
    omega
  have hcontains :
      (fun e => decide (windowReach ≤ e) && r.analysedEpochs.contains (e - windowReach))
      = EpochSpan.contains ⟨r.initEpoch + windowReach, r.finalEpoch + windowReach⟩ :=
    funext fun e => hgate e r.initEpoch r.finalEpoch windowReach
  rw [hcontains, EpochSpan.filter_contains (s := r.windowEpochs), EpochSpan.toList_add]
  · rfl
  · exact Nat.le_add_right _ _
  · exact Nat.le_of_eq h.lastWindow.symm

end SlotRange

end EpochRewards
