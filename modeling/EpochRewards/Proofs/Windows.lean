import EpochRewards.Download
import EpochRewards.Proofs.Gating
import EpochRewards.Proofs.Pass
import Mathlib.Data.List.Basic
import Mathlib.Tactic.Common

/-!
The windows of a download.

What the snapshot of each epoch comes to follows from the requests alone, since epochs are
fetched one after another. The windows are then those of three epochs in a row whose snapshots
are all there, with placeholders before genesis.
-/

namespace EpochRewards

/-! ### Snapshots -/

namespace Source

lemma retrying_ok {α : Type} {ask : Asking (Fetched α)} {n : Nat} {q q' : Requests} {a : α}
    (h : (retrying ask n).run q = (.ok a, q')) : ∃ q₀, (ask.run q₀).1 = .ok a := by
  induction n generalizing q with
  | zero => exact ⟨q, congrArg Prod.fst h⟩
  | succ n ih =>
    rw [retrying, StateT.run_bind] at h
    cases hr : ask.run q with
    | mk answer q₁ =>
      rw [hr] at h
      cases answer with
      | ok b =>
        cases h
        exact ⟨q, congrArg Prod.fst hr⟩
      | error e =>
        replace h : (if e.isNotFound then pure (.error e) else retrying ask n :
          Asking (Fetched α)).run q₁ = (.ok a, q') := h
        by_cases he : e.isNotFound
        · rw [if_pos he] at h
          cases h
        · rw [if_neg he] at h
          exact ih h

lemma settle_ok {α : Type} {ask : Asking (Fetched α)} {q q' : Requests} {a : α}
    (h : settle ask q = .ok a q') : ask.run q = (.ok a, q') := by
  unfold settle at h
  split at h
  · next b u hb =>
    cases h
    exact hb
  · cases h

/-- A snapshot is the state that the source gave for the last slot of its epoch, with blocks and
duties put in. -/
lemma snapshot_ok {src : Source} {net : Network} {retries : Nat} {e : Epoch} {q q' : Requests}
    {s : Snapshot} (h : (src.snapshot net retries e).run q = .ok s q') :
    ∃ i state, src.state (net.terminalSlot e) i = .ok state ∧
      s = { state with
        blocks := s.blocks
        duties := s.duties } := by
  unfold snapshot at h
  simp only [EStateM.run, Pass.bind_ok, Pass.pure_ok] at h
  obtain ⟨state, _, hstate, duties, _, -, slots, _, -, blocks, _, -, rfl, -⟩ := h
  obtain ⟨q₀, hq⟩ := retrying_ok (settle_ok hstate)
  exact ⟨_, state, hq, rfl⟩

/-- States carry the slot and the epoch that they are requested under, and a root. -/
def Faithful (src : Source) (net : Network) : Prop :=
  ∀ slot i s, src.state slot i = .ok s →
    s.slot = slot ∧ s.epoch = net.epochOf slot ∧ s.isPlaceholder = false

end Source

/-- The outcome for each epoch, `none` for a snapshot that could not be had. -/
abbrev Outcomes := List (Epoch × Option Snapshot)

namespace Order

/-- What the snapshots of some epochs come to when they are fetched one after another. -/
def outcomes (o : Order) : Requests → List Epoch → Outcomes
  | _, [] => []
  | q, e :: es =>
    match (o.source.snapshot o.network o.retries e).run q with
    | .ok s q => (e, some s) :: o.outcomes q es
    | .error _ q => (e, none) :: o.outcomes q es

lemma epochs_outcomes (o : Order) (q : Requests) (es : List Epoch) :
    (o.outcomes q es).map (·.1) = es := by
  induction es generalizing q with
  | nil => rfl
  | cons e es ih =>
    unfold outcomes
    split
    · rw [List.map_cons, ih]
    · rw [List.map_cons, ih]

/-- A snapshot among the outcomes was fetched. -/
lemma run_of_mem_outcomes {o : Order} {q : Requests} {es : List Epoch} {e : Epoch} {s : Snapshot}
    (h : (e, some s) ∈ o.outcomes q es) :
    ∃ q₀ q₁, (o.source.snapshot o.network o.retries e).run q₀ = .ok s q₁ := by
  induction es generalizing q with
  | nil => cases h
  | cons x es ih =>
    unfold outcomes at h
    split at h
    · next t u ht =>
      rcases List.mem_cons.1 h with he | h
      · cases he
        exact ⟨_, _, ht⟩
      · exact ih h
    · rcases List.mem_cons.1 h with he | h
      · cases he
      · exact ih h

lemma mem_outcomes {o : Order} {q : Requests} {es : List Epoch} {e : Epoch} {s : Snapshot}
    (h : (e, some s) ∈ o.outcomes q es) :
    ∃ i state, o.source.state (o.network.terminalSlot e) i = .ok state ∧
      s = { state with
        blocks := s.blocks
        duties := s.duties } := by
  obtain ⟨_, _, hrun⟩ := run_of_mem_outcomes h
  exact Source.snapshot_ok hrun

end Order

/-! ### Histories -/

namespace History

/-- The last snapshots of a list, which are what a history keeps. -/
def ofAll (xs : List (Option Snapshot)) : History := xs.drop (xs.length - windowLength)

lemma push_ofAll (xs : List (Option Snapshot)) (s : Option Snapshot) :
    (ofAll xs).push s = ofAll (xs ++ [s]) := by
  have hd : xs.drop (xs.length - windowLength) ++ [s]
      = (xs ++ [s]).drop (xs.length - windowLength) :=
    (List.drop_append_of_le_length (Nat.sub_le _ _)).symm
  unfold push ofAll
  rw [hd, List.drop_drop, List.length_drop]
  congr 1
  simp only [List.length_append, List.length_singleton, windowLength, windowReach]
  omega

lemma start_eq (r : SlotRange) :
    start r = ofAll (List.replicate r.preGenesisEpochs (some (.placeholder 0 0))) := by
  unfold start ofAll
  rw [List.length_replicate, SlotRange.preGenesisEpochs, windowLength]
  have h : windowReach - r.initEpoch - (windowReach + 1) = 0 := by
    unfold windowReach Epoch
    omega
  rw [h, List.drop_zero]

lemma window?_ofAll {xs : List (Option Snapshot)} {k : Nat} (h : xs.length = k + 3) :
    (ofAll xs).window? = do
      return ⟨← (xs[k]?).join, ← (xs[k + 1]?).join, ← (xs[k + 2]?).join⟩ := by
  have h₀ : k < xs.length := by omega
  have h₁ : k + 1 < xs.length := by omega
  have h₂ : k + 2 < xs.length := by omega
  have hd : ofAll xs = [xs[k], xs[k + 1], xs[k + 2]] := by
    have hk : xs.length - windowLength = k := by
      rw [h, windowLength, windowReach]
      omega
    rw [ofAll, hk, List.drop_eq_getElem_cons h₀, List.drop_eq_getElem_cons h₁,
      List.drop_eq_getElem_cons h₂, List.drop_eq_nil_of_le (by omega)]
  rw [hd, List.getElem?_eq_getElem h₀, List.getElem?_eq_getElem h₁, List.getElem?_eq_getElem h₂]
  cases xs[k] <;> cases xs[k + 1] <;> cases xs[k + 2] <;> rfl

end History

/-! ### Windows -/

/-- The tasks and the incomplete windows that come of outcomes after a history. -/
def slideAll (r : SlotRange) : History → Outcomes → List EpochTask × List Epoch
  | _, [] => ([], [])
  | h, (e, s) :: rest =>
    let h := h.push s
    let (tasks, lost) := slideAll r h rest
    if r.windowEpochs.contains e then
      match h.window? with
      | some w => (w.task :: tasks, lost)
      | none => (tasks, e :: lost)
    else (tasks, lost)

namespace Outcomes

/-- The snapshot of `n` epochs before `e`. -/
def back (xs : Outcomes) (e : Epoch) (n : Nat) : Option Snapshot :=
  if e < n then some (.placeholder 0 0) else (xs.lookup (e - n)).join

/-- The window that ends in an epoch, if its snapshots are all there. -/
def windowAt (xs : Outcomes) (e : Epoch) : Option Window := do
  return ⟨← xs.back e 2, ← xs.back e 1, ← xs.back e 0⟩

lemma lookup_of_range {xs : Outcomes} {a : Nat} (h : xs.map (·.1) = List.range' a xs.length)
    (j : Nat) : xs.lookup (a + j) = (xs[j]?).map (·.2) := by
  induction xs generalizing a j with
  | nil => rfl
  | cons x xs ih =>
    obtain ⟨e, s⟩ := x
    rw [List.length_cons, List.range'_succ, List.map_cons, List.cons_eq_cons] at h
    obtain ⟨rfl, h⟩ := h
    cases j with
    | zero => simp
    | succ j =>
      have hne : (e + (j + 1) == e) = false := by
        rw [beq_eq_false_iff_ne]
        exact Nat.ne_of_gt (Nat.lt_add_of_pos_right (Nat.succ_pos j))
      rw [List.lookup_cons, hne, List.getElem?_cons_succ, ← ih h, Nat.add_assoc, Nat.add_comm 1]

/-- Everything that a history has seen, placeholders included. -/
def seen (r : SlotRange) (xs : Outcomes) : List (Option Snapshot) :=
  List.replicate r.preGenesisEpochs (some (.placeholder 0 0)) ++ xs.map (·.2)

variable {r : SlotRange} {xs : Outcomes} {e : Nat}

lemma back_eq_seen (hx : xs.map (·.1) = List.range' r.downloadEpochs.first xs.length)
    (he : r.initEpoch ≤ e) {n : Nat} (hn : n ≤ windowReach) :
    xs.back e n = ((seen r xs)[e - r.initEpoch + windowReach - n]?).join := by
  have hlen : (List.replicate r.preGenesisEpochs (some (Snapshot.placeholder 0 0))).length
      = windowReach - r.initEpoch := List.length_replicate
  have before (init : Nat) (hi : init ≤ e) (hlt : e < n) :
      e - init + windowReach - n < windowReach - init := by
    unfold windowReach at *
    omega
  have after (init : Nat) (hi : init ≤ e) (hge : n ≤ e) :
      windowReach - init ≤ e - init + windowReach - n ∧
        init - windowReach + (e - init + windowReach - n - (windowReach - init)) = e - n := by
    unfold windowReach at *
    omega
  by_cases h : e < n
  · have hlt : e - r.initEpoch + windowReach - n < r.preGenesisEpochs := before _ he h
    rw [back, if_pos h, seen, List.getElem?_append_left (by rwa [List.length_replicate]),
      List.getElem?_replicate_of_lt hlt]
    rfl
  · obtain ⟨hge, hindex⟩ := after r.initEpoch he (Nat.le_of_not_lt h)
    rw [back, if_neg h, seen, List.getElem?_append_right (by rwa [hlen]), hlen, List.getElem?_map,
      ← lookup_of_range hx]
    exact congrArg (fun e => (xs.lookup e).join) hindex.symm

lemma windowAt_eq_seen (hx : xs.map (·.1) = List.range' r.downloadEpochs.first xs.length)
    (he : r.initEpoch ≤ e) : xs.windowAt e = do
      let k : Nat := e - r.initEpoch
      return ⟨← ((seen r xs)[k]?).join, ← ((seen r xs)[k + 1]?).join,
        ← ((seen r xs)[k + 2]?).join⟩ := by
  rw [windowAt, back_eq_seen hx he (Nat.le_refl 2), back_eq_seen hx he (Nat.le_succ 1),
    back_eq_seen hx he (Nat.zero_le 2)]
  rfl

lemma length_seen (xs : Outcomes) : (seen r xs).length = windowReach - r.initEpoch + xs.length := by
  rw [seen, List.length_append, List.length_replicate, List.length_map]
  rfl

/-- What a history shows after the outcome for `e` is the window that ends in `e`. -/
lemma window?_seen {ys : Outcomes} {s : Option Snapshot}
    (hx : (xs ++ (e, s) :: ys).map (·.1)
      = List.range' r.downloadEpochs.first (xs ++ (e, s) :: ys).length)
    (he : r.initEpoch ≤ e) :
    (History.ofAll (seen r (xs ++ [(e, s)]))).window? = (xs ++ (e, s) :: ys).windowAt e := by
  have hpos : e = r.initEpoch - windowReach + xs.length := by
    have h := congrArg (·[xs.length]?) hx
    have hfirst : e = r.downloadEpochs.first + xs.length := by
      simpa [List.getElem?_range'] using h
    exact hfirst
  have hsplit : xs ++ (e, s) :: ys = (xs ++ [(e, s)]) ++ ys := by simp
  have hlen : (seen r (xs ++ [(e, s)])).length = e - r.initEpoch + 3 := by
    rw [length_seen, List.length_append, List.length_singleton]
    have arith (init n : Nat) (hi : init ≤ e) (hn : e = init - windowReach + n) :
        windowReach - init + (n + 1) = e - init + 3 := by
      unfold windowReach at *
      omega
    exact arith _ _ he hpos
  have hprefix (j : Nat) (hj : j ≤ windowReach) :
      (seen r (xs ++ (e, s) :: ys))[e - r.initEpoch + j]?
        = (seen r (xs ++ [(e, s)]))[e - r.initEpoch + j]? := by
    have hseen : seen r ((xs ++ [(e, s)]) ++ ys) = seen r (xs ++ [(e, s)]) ++ ys.map (·.2) := by
      simp [seen]
    have hlt : e - r.initEpoch + j < (seen r (xs ++ [(e, s)])).length := by
      unfold windowReach at hj
      omega
    rw [hsplit, hseen, List.getElem?_append_left hlt]
  rw [History.window?_ofAll hlen, windowAt_eq_seen hx he]
  have hfirst : (seen r (xs ++ (e, s) :: ys))[e - r.initEpoch]?
      = (seen r (xs ++ [(e, s)]))[e - r.initEpoch]? := hprefix 0 (Nat.zero_le 2)
  simp only [hfirst, hprefix 1 (Nat.le_succ 1), hprefix 2 (Nat.le_refl 2)]

/-- Sliding a window over outcomes gives the windows of the epochs in which one ends. -/
lemma slideAll_suffix {xs ys : Outcomes}
    (hx : (xs ++ ys).map (·.1) = List.range' r.downloadEpochs.first (xs ++ ys).length) :
    slideAll r (.ofAll (seen r xs)) ys =
      (((ys.map (·.1)).filter r.windowEpochs.contains).filterMap
          fun e => ((xs ++ ys).windowAt e).map Window.task,
        ((ys.map (·.1)).filter r.windowEpochs.contains).filter
          fun e => ((xs ++ ys).windowAt e).isNone) := by
  induction ys generalizing xs with
  | nil => rfl
  | cons y ys ih =>
    obtain ⟨e, s⟩ := y
    have hsplit : xs ++ (e, s) :: ys = (xs ++ [(e, s)]) ++ ys := by simp
    have hseen : seen r xs ++ [s] = seen r (xs ++ [(e, s)]) := by simp [seen]
    rw [slideAll, History.push_ofAll, hseen, hsplit, ih (by rw [← hsplit]; exact hx), List.map_cons]
    by_cases hc : r.windowEpochs.contains e
    · have he : r.initEpoch ≤ e := by
        rw [EpochSpan.contains, Bool.and_eq_true, decide_eq_true_eq] at hc
        exact hc.1
      have hw := window?_seen hx he
      rw [hsplit] at hw
      rw [List.filter_cons_of_pos hc]
      simp only [hc, if_true, hw]
      cases h : ((xs ++ [(e, s)]) ++ ys).windowAt e with
      | some w =>
        rw [List.filterMap_cons_some (b := w.task) (by rw [h]; rfl),
          List.filter_cons_of_neg (by simp only [h]; exact Bool.false_ne_true)]
      | none =>
        rw [List.filterMap_cons_none (by rw [h]; rfl), List.filter_cons_of_pos (by simp only [h]; rfl)]
    · rw [List.filter_cons_of_neg hc]
      simp only [hc]
      rfl

/-- Windows end in the epochs from the first requested one on. -/
lemma filter_downloadEpochs (r : SlotRange) :
    r.downloadEpochs.toList.filter r.windowEpochs.contains = r.windowEpochs.toList :=
  EpochSpan.filter_contains (Nat.sub_le _ _) (Nat.le_refl _)

/-- The windows of a download, and the epochs that end none. -/
theorem slideAll_start {xs : Outcomes} (hx : xs.map (·.1) = r.downloadEpochs.toList) :
    slideAll r (.start r) xs =
      (r.windowEpochs.toList.filterMap fun e => (xs.windowAt e).map Window.task,
        r.windowEpochs.toList.filter fun e => (xs.windowAt e).isNone) := by
  have hlen : r.downloadEpochs.last + 1 - r.downloadEpochs.first = xs.length := by
    rw [← List.length_map (·.1), hx, EpochSpan.toList, List.length_range']
  have hrange : xs.map (·.1) = List.range' r.downloadEpochs.first xs.length := by
    rw [hx, EpochSpan.toList, hlen]
  have h : slideAll r (.ofAll (seen r [])) xs = _ := slideAll_suffix hrange
  rw [hx, filter_downloadEpochs] at h
  rw [History.start_eq]
  simpa [seen] using h

end Outcomes

end EpochRewards
