import EpochRewards.Proofs.Settings
import Mathlib

/-!
Forks: which phase is in force, and by which rules a run of windows is accounted.

The phases are scanned in their order up to the first whose fork lies ahead. A phase has therefore
been passed once all phases up to it have been reached, however the forks are scheduled. Where the
schedule ascends, as that of every profile that is not refused does, a phase has been passed as
soon as its own fork has been reached: the epochs of the forks and the phases in force are adjoint.
-/

namespace EpochRewards

/-! ### The order of the phases -/

namespace Phase

/-- The rank of a phase is its position among all of them. -/
lemma getElem?_all (p : Phase) : all[p.rank]? = some p := by cases p <;> rfl

lemma rank_injective : Function.Injective rank := fun p q h =>
  Option.some.inj (by rw [← getElem?_all p, ← getElem?_all q, h])

instance : LinearOrder Phase where
  le := (· ≤ ·)
  le_refl p := Nat.le_refl p.rank
  le_trans _ _ _ := Nat.le_trans
  le_antisymm _ _ h h' := rank_injective (Nat.le_antisymm h h')
  le_total p q := Nat.le_total p.rank q.rank
  toDecidableLE := inferInstance

lemma phase0_le (p : Phase) : phase0 ≤ p := Nat.zero_le p.rank

lemma mem_all (p : Phase) : p ∈ all := List.mem_of_getElem? (getElem?_all p)

lemma ascending_all : all.Pairwise (· < ·) := by decide

/-- What holds of any two phases as they are listed holds of any two in their order. -/
lemma rel_of_pairwise_all {R : Phase → Phase → Prop} (h : all.Pairwise R) {p q : Phase}
    (hpq : p < q) : R p q := by
  obtain ⟨hp, hget⟩ := List.getElem?_eq_some_iff.1 (getElem?_all p)
  obtain ⟨hq, hget'⟩ := List.getElem?_eq_some_iff.1 (getElem?_all q)
  have hrank : p.rank < q.rank := Nat.lt_of_not_le hpq.2
  rw [← hget, ← hget']
  exact List.pairwise_iff_getElem.1 h _ _ hp hq hrank

lemma usesParticipationFlags_iff {p : Phase} : p.usesParticipationFlags = true ↔ altair ≤ p := by
  cases p <;> decide

end Phase

/-- A scan of ascending elements takes those up to which nothing stops it. -/
lemma mem_takeWhile_iff {α : Type} [Preorder α] {f : α → Bool} {l : List α} {a : α}
    (hl : l.Pairwise (· < ·)) :
    a ∈ l.takeWhile f ↔ a ∈ l ∧ ∀ b ∈ l, b ≤ a → f b = true := by
  induction l with
  | nil => simp
  | cons x l ih =>
    obtain ⟨hx, hl⟩ := List.pairwise_cons.1 hl
    by_cases hf : f x = true
    · rw [List.takeWhile_cons_of_pos hf, List.mem_cons, ih hl, List.mem_cons]
      constructor
      · rintro (rfl | ⟨ha, hall⟩)
        · -- nothing after the first element is below it
          refine ⟨.inl rfl, List.forall_mem_cons.2 ⟨fun _ => hf, fun b hb hle => ?_⟩⟩
          exact absurd hle (not_le_of_gt (hx b hb))
        · exact ⟨.inr ha, List.forall_mem_cons.2 ⟨fun _ => hf, hall⟩⟩
      · rintro ⟨rfl | ha, hall⟩
        · exact .inl rfl
        · exact .inr ⟨ha, (List.forall_mem_cons.1 hall).2⟩
    · rw [List.takeWhile_cons_of_neg hf]
      refine ⟨nofun, fun ⟨ha, hall⟩ => absurd (hall x List.mem_cons_self ?_) hf⟩
      rcases List.mem_cons.1 ha with rfl | ha
      · exact le_rfl
      · exact le_of_lt (hx a ha)

/-! ### The phase in force -/

namespace Network

variable {net : Network} {e : Epoch} {p : Phase}

/-- The phases that the scan passes before it stops. -/
def passed (net : Network) (e : Epoch) : List Phase :=
  Phase.all.takeWhile fun p => net.forkEpoch p ≤ e

lemma mem_passed : p ∈ net.passed e ↔ ∀ q ≤ p, net.forkEpoch q ≤ e := by
  rw [passed, mem_takeWhile_iff Phase.ascending_all]
  simp [Phase.mem_all]

lemma phase0_mem_passed (net : Network) (e : Epoch) : .phase0 ∈ net.passed e := by
  rw [mem_passed]
  intro q hq
  rw [le_antisymm hq q.phase0_le]
  exact Nat.zero_le e

/-- The phase in force is the last one passed. -/
lemma phaseAt_mem_passed (net : Network) (e : Epoch) : net.phaseAt e ∈ net.passed e ∧
    ∀ p ∈ net.passed e, p ≤ net.phaseAt e := by
  have hne := List.ne_nil_of_mem (net.phase0_mem_passed e)
  have hlast : net.phaseAt e = (net.passed e).getLast hne := by
    show (net.passed e).getLast?.getD .phase0 = _
    rw [List.getLast?_eq_some_getLast hne, Option.getD_some]
  have hascending : (net.passed e).Pairwise (· ≤ ·) :=
    (Phase.ascending_all.sublist (List.takeWhile_sublist _)).imp le_of_lt
  rw [hlast]
  exact ⟨List.getLast_mem hne, fun p hp => hascending.rel_getLast hp⟩

/-- **What the scan finds.** A phase has been passed once every phase up to it has been reached,
in whichever order the forks are scheduled. -/
theorem le_phaseAt_iff : p ≤ net.phaseAt e ↔ ∀ q ≤ p, net.forkEpoch q ≤ e := by
  obtain ⟨hmem, hlast⟩ := net.phaseAt_mem_passed e
  constructor
  · intro hp q hq
    exact mem_passed.1 hmem q (hq.trans hp)
  · intro hreached
    exact hlast p (mem_passed.2 hreached)

/-- Phases that have been passed do not come back. -/
lemma monotone_phaseAt (net : Network) : Monotone net.phaseAt := fun _ _ hle =>
  le_phaseAt_iff.2 fun q hq => (le_phaseAt_iff.1 le_rfl q hq).trans hle

/-- The epochs of the forks and the phases in force are adjoint exactly where the schedule
ascends. -/
theorem galoisConnection_iff :
    GaloisConnection net.forkEpoch net.phaseAt ↔ Monotone net.forkEpoch := by
  refine ⟨fun h => h.monotone_l, fun h p e => ⟨fun hp => ?_, fun hp => ?_⟩⟩
  · exact le_phaseAt_iff.2 fun q hq => (h hq).trans hp
  · exact le_phaseAt_iff.1 hp p le_rfl

lemma isSorted_iff {l : List Nat} : isSorted l = true ↔ l.Pairwise (· ≤ ·) := by
  rw [← List.isChain_iff_pairwise]
  induction l with
  | nil => simp [isSorted]
  | cons a l ih =>
    cases l with
    | nil => simp [isSorted]
    | cons b l => simp [isSorted, ih]

/-- What is checked of a schedule is that later phases do not start earlier. -/
lemma isSorted_forkEpochs :
    isSorted (net.forkEpochs.map (·.2)) = true ↔ Monotone net.forkEpoch := by
  have hmap : net.forkEpochs.map (·.2) = Phase.all.map net.forkEpoch := by
    rw [forkEpochs, List.map_map]
    rfl
  rw [isSorted_iff, hmap, List.pairwise_map]
  constructor
  · intro h p q hpq
    rcases hpq.eq_or_lt with rfl | hlt
    · exact le_rfl
    · exact Phase.rel_of_pairwise_all h hlt
  · intro h
    exact Phase.ascending_all.imp fun hlt => h (le_of_lt hlt)

lemma monotone_forkEpoch (h : net.validate = .ok ()) : Monotone net.forkEpoch := by
  rw [← isSorted_forkEpochs]
  unfold validate at h
  split_ifs at h with hempty hname hsorted
  simpa using hsorted

/-- Flags are used from the epoch of Altair on, whatever the later forks are. -/
lemma usesParticipationFlags_phaseAt (net : Network) (e : Epoch) :
    (net.phaseAt e).usesParticipationFlags = decide (net.altairEpoch ≤ e) := by
  rw [Bool.eq_iff_iff, decide_eq_true_iff, Phase.usesParticipationFlags_iff, le_phaseAt_iff]
  constructor
  · exact fun h => h .altair le_rfl
  · intro h q hq
    cases q with
    | phase0 => exact Nat.zero_le e
    | altair => exact h
    | _ => exact absurd hq (by decide)

end Network

/-! ### Runs of windows -/

/-- A property that is never lost holds from some element on. -/
lemma exists_split_of_pairwise {α : Type} {P : α → Prop} {l : List α}
    (h : l.Pairwise fun a b => P a → P b) :
    ∃ before after, l = before ++ after ∧ (∀ a ∈ before, ¬ P a) ∧ ∀ a ∈ after, P a := by
  induction l with
  | nil => exact ⟨[], [], rfl, nofun, nofun⟩
  | cons a l ih =>
    obtain ⟨ha, hl⟩ := List.pairwise_cons.1 h
    by_cases hP : P a
    · exact ⟨[], a :: l, rfl, nofun, List.forall_mem_cons.2 ⟨hP, fun b hb => ha b hb hP⟩⟩
    · obtain ⟨before, after, rfl, hbefore, hafter⟩ := ih hl
      exact ⟨a :: before, after, rfl, List.forall_mem_cons.2 ⟨hP, hbefore⟩, hafter⟩

/-- The bundle after one run of these passes, or why they fail. -/
def Bundle.preparedBy (passes : Pass Unit) (b : Bundle) : Calc Bundle :=
  match passes.run b with
  | .ok _ b => .ok b
  | .error e _ => .error e

lemma Bundle.prepared_eq (b : Bundle) : b.prepared =
    b.preparedBy (if b.phase.usesParticipationFlags then Altair.prepare else Phase0.prepare) := rfl

/-- What it takes to account for a window: how its bundle is opened, the passes over the bundle and
the records that are drawn from it. -/
structure Rules where
  /-- whether votes are accounted by participation flags -/
  flags : Bool
  start : Network → ReportPreference → Window → Except Fault Bundle
  passes : Pass Unit
  record : Bundle → ValidatorIndex → Calc ValidatorRecord

namespace Rules

def phase0 : Rules := ⟨false, Bundle.openPhase0, Phase0.prepare, Phase0.record⟩

def altair : Rules := ⟨true, Bundle.openAltair, Altair.prepare, Altair.record⟩

end Rules

namespace Window

variable {net : Network} {preference : ReportPreference} {w : Window}

/-- A window is accounted by these rules, whether or not there is anything wrong with it. -/
structure AccountedBy (rules : Rules) (net : Network) (preference : ReportPreference)
    (w : Window) : Prop where
  bundle : Bundle.build net preference w =
    (do (← rules.start net preference w).preparedBy rules.passes)
  flags : ∀ b, Bundle.build net preference w = .ok b →
    b.phase.usesParticipationFlags = rules.flags
  records : ∀ b, Bundle.build net preference w = .ok b → ∀ v, b.resolve v = rules.record b v

/-- The rules are those of a phase: they open bundles with it, and both the passes and the records
are the ones that it asks for. -/
lemma accountedBy_of_start {rules : Rules} {p : Phase} (hp : net.phaseAt w.current.epoch = p)
    (hflags : p.usesParticipationFlags = rules.flags)
    (hstart : rules.start net preference w = Bundle.fresh net p preference w)
    (hpasses : rules.passes = if rules.flags then Altair.prepare else Phase0.prepare)
    (hrecord : rules.record = if rules.flags then Altair.record else Phase0.record) :
    w.AccountedBy rules net preference := by
  have hphase (b : Bundle) (hb : Bundle.build net preference w = .ok b) :
      b.phase.usesParticipationFlags = rules.flags := by rw [Bundle.phase_build hb, hp, hflags]
  refine ⟨?_, hphase, fun b hb v => ?_⟩
  · rw [Bundle.build_eq, hp, hstart, hpasses]
    cases h : Bundle.fresh net p preference w with
    | error f => rfl
    | ok b =>
      show b.prepared = b.preparedBy _
      rw [Bundle.prepared_eq, Bundle.phase_fresh h, hflags]
  · rw [Bundle.resolve, hphase b hb, hrecord]
    split <;> rfl

lemma accountedBy_altair (h : .altair ≤ net.phaseAt w.current.epoch) :
    w.AccountedBy .altair net preference := by
  have hflags := Phase.usesParticipationFlags_iff.2 h
  refine accountedBy_of_start rfl hflags ?_ rfl rfl
  show Bundle.openAltair net preference w = _
  rw [Bundle.openAltair, Phase.later_altair hflags]

lemma accountedBy_phase0 (h : ¬ .altair ≤ net.phaseAt w.current.epoch) :
    w.AccountedBy .phase0 net preference := by
  rw [← Phase.usesParticipationFlags_iff] at h
  exact accountedBy_of_start (Phase.eq_phase0 h) rfl rfl rfl rfl

end Window

/-- **The phase follows the schedule.** With a schedule that is not refused, the fork of a phase has
been reached exactly if the phase in force is that phase or a later one. With any schedule at all
the phase in force never goes back. So of a run of windows in ascending order the first ones are
accounted by the rules of Phase 0 and all others by those of Altair, which are never left again. -/
theorem Network.schedule_followed (net : Network) :
    (net.validate = .ok () → GaloisConnection net.forkEpoch net.phaseAt) ∧
      Monotone net.phaseAt ∧
        ∀ (preference : ReportPreference) (ws : List Window),
          ws.Pairwise (fun w w' => w.current.epoch ≤ w'.current.epoch) →
            ∃ before after, ws = before ++ after ∧
              (∀ w ∈ before, w.AccountedBy .phase0 net preference) ∧
                ∀ w ∈ after, w.AccountedBy .altair net preference := by
  refine ⟨fun h => galoisConnection_iff.2 (monotone_forkEpoch h), net.monotone_phaseAt, ?_⟩
  intro preference ws hascending
  have hkept : ws.Pairwise fun w w' => .altair ≤ net.phaseAt w.current.epoch →
      .altair ≤ net.phaseAt w'.current.epoch :=
    hascending.imp fun hle hw => hw.trans (net.monotone_phaseAt hle)
  obtain ⟨before, after, hws, hbefore, hafter⟩ := exists_split_of_pairwise hkept
  exact ⟨before, after, hws, fun w hw => Window.accountedBy_phase0 (hbefore w hw),
    fun w hw => Window.accountedBy_altair (hafter w hw)⟩

/-- Two forks in one epoch, a later one, and one that is not scheduled. -/
def Network.sharedForks : Network :=
  { Network.minimal with
    altairEpoch := 2
    bellatrixEpoch := 2
    capellaEpoch := 5 }

/-- A window of which nothing is known but its epochs. -/
def Window.vacant (current : Epoch) : Window :=
  ⟨.placeholder (current - 1) 0, .placeholder current 0, .placeholder (current + 1) 0⟩

/-- Altair and the fork after it come between these two windows. -/
theorem Network.sharedForks_schedule_followed :
    sharedForks.validate = .ok () ∧ GaloisConnection sharedForks.forkEpoch sharedForks.phaseAt ∧
      sharedForks.phaseAt 1 = .phase0 ∧ sharedForks.phaseAt 2 = .bellatrix ∧
        [Window.vacant 1, .vacant 2].Pairwise (fun w w' => w.current.epoch ≤ w'.current.epoch) ∧
          (Window.vacant 1).AccountedBy .phase0 sharedForks .strictlyPositive ∧
            (Window.vacant 2).AccountedBy .altair sharedForks .strictlyPositive ∧
              ∃ b c, Bundle.build sharedForks .strictlyPositive (.vacant 1) = .ok b ∧
                Bundle.build sharedForks .strictlyPositive (.vacant 2) = .ok c := by
  have hvalid : sharedForks.validate = .ok () := rfl
  have hfirst : sharedForks.phaseAt 1 = .phase0 := rfl
  have hsecond : sharedForks.phaseAt 2 = .bellatrix := rfl
  have hascending : [Window.vacant 1, .vacant 2].Pairwise
      (fun w w' => w.current.epoch ≤ w'.current.epoch) := by decide
  obtain ⟨b, hb⟩ : ∃ b, Bundle.build sharedForks .strictlyPositive (.vacant 1) = .ok b :=
    Calc.ok_of_isSome (by cbv)
  obtain ⟨c, hc⟩ : ∃ c, Bundle.build sharedForks .strictlyPositive (.vacant 2) = .ok c :=
    Calc.ok_of_isSome (by cbv)
  obtain ⟨hadjoint, -, hruns⟩ := schedule_followed sharedForks
  obtain ⟨before, after, hws, hbefore, hafter⟩ := hruns .strictlyPositive _ hascending
  refine ⟨hvalid, hadjoint hvalid, hfirst, hsecond, hascending, ?_, ?_, b, c, hb, hc⟩
  · have hmem : Window.vacant 1 ∈ before ++ after := hws ▸ List.mem_cons_self
    rcases List.mem_append.1 hmem with h | h
    · exact hbefore _ h
    · have hflags := (hafter _ h).flags b hb
      rw [Bundle.phase_build hb] at hflags
      exact absurd hflags (by decide)
  · have hmem : Window.vacant 2 ∈ before ++ after := hws ▸ List.mem_cons_of_mem _ List.mem_cons_self
    rcases List.mem_append.1 hmem with h | h
    · have hflags := (hbefore _ h).flags c hc
      rw [Bundle.phase_build hc] at hflags
      exact absurd hflags (by decide)
    · exact hafter _ h

end EpochRewards
