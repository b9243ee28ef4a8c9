import EpochRewards.Proofs.Outcomes

/-!
Arithmetic that goes wrong.

Divisors are never zero, differences never negative, and no tally is written where there is none,
whatever the snapshots of a window hold. What keeps it so are a few facts about a bundle that every
change preserves: the active balance is an increment at least, every validator of the last registry
has a place, and an opportunity comes after its slot. So passes may fail, be run again and be read
in between, and a fault is always a sum or a product that is no word.
-/

namespace EpochRewards

namespace Bundle

open Pass

variable {net : Network} {preference : ReportPreference} {w : Window} {slots : List Slot}
  {b c : Bundle}

/-! ### Changes -/

lemma Change.stands (h : b.Change c) (hb : b.Stands net w slots) : c.Stands net w slots := by
  cases h with
  | payment ledger kept => exact hb.update rfl rfl rfl rfl kept rfl
  | opportunity scanned =>
    refine ⟨hb.network, hb.window, hb.staked, hb.covered, hb.listed, fun s d hd => ?_, fun s hs =>
      b.opportunities.isSome_insert _ _ (hb.indexed s hs)⟩
    rw [Ledger.get?_insert] at hd
    split at hd
    · rw [Option.some.inj hd] at scanned
      exact Window.le_of_scan scanned
    · exact hb.ahead s d hd
  | maximum tally amount => exact hb.setTally _ _
  | credit tally unseen delay ordered => exact hb.setTally _ _
  | _ => exact hb.update rfl rfl rfl rfl (fun _ hs => hs) rfl

lemma stands_changes (h : b.Changes c) (hb : b.Stands net w slots) : c.Stands net w slots := by
  induction h with
  | refl => exact hb
  | tail _ hstep ih => exact hstep.stands ih

/-- However often the passes were run, and wherever they failed. -/
lemma Reached.stands (h : Reached net preference w b) : b.Stands net w [] := by
  obtain ⟨_, a, ha, hchanges⟩ := h.changes
  exact stands_changes hchanges (stands_fresh ha)

/-! ### Rows of the first epoch -/

lemma errs_epochSummary (b : Bundle) : Calc.Errs Fault.IsOverflow b.epochSummary :=
  .bind Word.errs_sum fun _ _ => .bind (b.window.prev.errs_activeBalance b.network) fun _ _ => .ok _

lemma errs_blockSummaries (b : Bundle) : Calc.Errs Fault.IsOverflow b.blockSummaries :=
  .mapM fun _ _ => .bind Word.errs_sum fun _ _ => .ok _

/-! ### Records -/

lemma errs_signed? (delta : Int) : Calc.Errs Failure.Tame (signed? delta) := by
  unfold signed?
  split
  · exact .ok _
  · rintro _ ⟨⟩
    trivial

lemma errs_epochReward (b : Bundle) (v : ValidatorIndex) :
    Calc.Errs Failure.Tame (b.epochReward v) := by
  refine .bind (.orFail fun _ => trivial) fun after _ => ?_
  split
  · exact .ok _
  · exact .bind (.fault Word.errs_sum) fun amount _ => errs_signed? _

lemma errs_record (b : Bundle) (v : ValidatorIndex) (c : RewardComponents) :
    Calc.Errs Failure.Tame (b.record v c) :=
  .bind (.orFail fun _ => trivial) fun _ _ => .bind (.orFail fun _ => trivial) fun _ _ =>
    .bind (.fault Word.errs_add) fun _ _ => .bind (.fault Word.errs_add) fun _ _ =>
      .bind (.fault Word.errs_add) fun _ _ => .bind (errs_epochReward b v) fun _ _ =>
        .bind (.fault (errs_inclusionDelay b v)) fun _ _ => .ok _

lemma errs_altairRecord (b : Bundle) (v : ValidatorIndex) :
    Calc.Errs Failure.Tame (Altair.record b v) := by
  refine .bind (.orFail fun _ => trivial) fun t _ => .bind (.fault (errs_proposerRewards _ _ _))
    fun ⟨reported, computed⟩ _ => ?_
  dsimp only
  split
  · exact errs_record b v _
  · exact .bind (Altair.errs_baseReward b v _) fun _ _ => errs_record b v _

lemma errs_phase0Record (b : Bundle) (v : ValidatorIndex) :
    Calc.Errs Failure.Tame (Phase0.record b v) := by
  refine .bind (.orFail fun _ => trivial) fun t _ => .bind (.fault (errs_proposerRewards _ _ _))
    fun ⟨reported, computed⟩ _ => ?_
  dsimp only
  split
  · exact errs_record b v _
  · exact .bind (Phase0.errs_baseReward b v) fun _ _ => errs_record b v _

/-- Whatever figures a bundle has. -/
lemma errs_resolve (b : Bundle) (v : ValidatorIndex) : Calc.Errs Failure.Tame (b.resolve v) := by
  unfold resolve
  split
  · exact errs_altairRecord b v
  · exact errs_phase0Record b v

/-- Of all that is done with a bundle nothing fails with a fault other than an overflow. The rows
that are not named here are had of every bundle. -/
structure OverflowsOnly (b : Bundle) : Prop where
  prepare : ∀ f c, prepare b = .error (.fault f) c → f.IsOverflow
  resolve : ∀ v f, b.resolve v = .error (.fault f) → f.IsOverflow
  epochSummary : ∀ f, b.epochSummary = .error f → f.IsOverflow
  blockSummaries : ∀ f, b.blockSummaries = .error f → f.IsOverflow

lemma Reached.overflowsOnly (h : Reached net preference w b) : b.OverflowsOnly where
  prepare f c hrun := by
    have hmeets := prepare_meets h.stands
    rw [hrun] at hmeets
    exact hmeets
  resolve v f hf := errs_resolve b v _ hf
  epochSummary := errs_epochSummary b
  blockSummaries := errs_blockSummaries b

/-- **Overflow is the only fault.** For every network and every window, well-formed or not, bundles
are opened, prepared and read under either set of rules without a fault other than a sum or a
product that is no word. -/
theorem faults_are_overflows (net : Network) (preference : ReportPreference) (w : Window) :
    (∀ phase f, fresh net phase preference w = .error f → f.IsOverflow) ∧
      ∀ b, Reached net preference w b → b.OverflowsOnly :=
  ⟨fun phase => errs_fresh net phase preference w, fun _ h => h.overflowsOnly⟩

/-- The effective balance of the one validator is too large for a base reward. -/
def heavyWindow : Window :=
  let snapshot (epoch : Epoch) : Snapshot :=
    { Snapshot.placeholder epoch (4 * epoch + 3) with
      stateRoot := .ofNat 32 1
      validators := [⟨.zero, 1 <<< 60, false, 0, 0, farFuture, farFuture⟩]
      balances := [1 <<< 60] }
  ⟨snapshot 1, snapshot 2, snapshot 3⟩

lemma heavyWindow_failure :
    leftovers (openPhase0 .fourSlots .strictlyPositive heavyWindow)
        (fun c => (failureOf (c.resolve 0), failureOf (c.resolve 1)))
      = some (some (.fault .mulOverflow), some (.error (.validatorOutsideBundle 1))) := by
  cbv

/-- The passes fail and leave a bundle from which one validator cannot be read for an overflow and
another one because it is not there. -/
theorem heavyWindow_overflows :
    ∃ b e c, openPhase0 .fourSlots .strictlyPositive heavyWindow = .ok b ∧ prepare b = .error e c ∧
      c.resolve 0 = .error (.fault .mulOverflow) ∧
      c.resolve 1 = .error (.error (.validatorOutsideBundle 1)) ∧ c.OverflowsOnly := by
  obtain ⟨b, e, c, hopened, hrun, hfailures⟩ := exists_of_leftovers heavyWindow_failure
  obtain ⟨hoverflow, houtside⟩ := Prod.mk.inj hfailures
  exact ⟨b, e, c, hopened, hrun, failureOf_eq hoverflow, failureOf_eq houtside,
    (faults_are_overflows .fourSlots .strictlyPositive heavyWindow).2 c
      (.failed (.phase0 hopened) hrun)⟩

end Bundle

end EpochRewards
