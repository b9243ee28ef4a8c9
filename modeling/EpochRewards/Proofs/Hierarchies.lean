import EpochRewards.Proofs.Failures
import EpochRewards.Proofs.Runs
import EpochRewards.Proofs.Skips
import Mathlib

/-!
The order of participation flags.

A vote earns a flag only together with the flags before it, though the limits of their delays are in
another order. Every change of a bundle keeps to this: flags are set for one vote at a time, and a
balance is added for the first flags first. So the order holds in tallies, in balances behind flags,
in records and, counted, in the summary of the epoch.
-/

namespace EpochRewards

/-- The flags are in order, and without a vote there are none. -/
structure ValidatorTally.Ordered (t : ValidatorTally) : Prop where
  flags : t.flags.Ordered
  absent : t.inclusionDelay = none → t.flags = .none

structure FlagTotals.Ordered (t : FlagTotals) : Prop where
  target : t.head ≤ t.target
  source : t.target ≤ t.source

lemma Flag.count_prefix {flags : List Flag} (h : flags <+: Flag.all) :
    flags.count .head ≤ flags.count .target ∧ flags.count .target ≤ flags.count .source := by
  have hall : ∀ flags ∈ Flag.all.inits, flags.count .head ≤ flags.count .target ∧
      flags.count .target ≤ flags.count .source := by decide
  exact hall flags ((List.mem_inits flags Flag.all).2 h)

namespace Bundle

variable {net : Network} {phase : Phase} {preference : ReportPreference} {w : Window}
  {b c : Bundle} {v : ValidatorIndex}

/-! ### Tallies and balances -/

structure InOrder (b : Bundle) : Prop where
  tallies : ∀ t ∈ b.tallies, t.Ordered
  balance : b.attestingBalance.Ordered

lemma InOrder.setTally (h : b.InOrder) (v : ValidatorIndex) {t : ValidatorTally} (ht : t.Ordered) :
    InOrder { b with tallies := b.tallies.set v t } where
  tallies k hk := by
    rcases List.mem_or_eq_of_mem_set hk with hk | rfl
    · exact h.tallies k hk
    · exact ht
  balance := h.balance

lemma Change.inOrder (h : b.Change c) (hb : b.InOrder) : c.InOrder := by
  cases h with
  | maximum tally amount =>
    have ht := hb.tallies _ (List.mem_of_getElem? tally)
    exact hb.setTally _ ⟨ht.flags, ht.absent⟩
  | credit tally unseen delay ordered => exact hb.setTally _ ⟨ordered, nofun⟩
  | @support flags earned amount totals balance =>
    obtain ⟨htarget, hsource⟩ := Flag.count_prefix earned
    refine ⟨hb.tallies, ⟨?_, ?_⟩⟩
    · calc totals.head = b.attestingBalance.head + flags.count .head * amount := balance .head
        _ ≤ b.attestingBalance.target + flags.count .target * amount :=
          Nat.add_le_add hb.balance.target (Nat.mul_le_mul_right _ htarget)
        _ = totals.target := (balance .target).symm
    · calc totals.target = b.attestingBalance.target + flags.count .target * amount :=
            balance .target
        _ ≤ b.attestingBalance.source + flags.count .source * amount :=
          Nat.add_le_add hb.balance.source (Nat.mul_le_mul_right _ hsource)
        _ = totals.source := (balance .source).symm
  | _ => exact ⟨hb.tallies, hb.balance⟩

lemma inOrder_changes (h : b.Changes c) (hb : b.InOrder) : c.InOrder := by
  induction h with
  | refl => exact hb
  | tail _ hstep ih => exact hstep.inOrder ih

lemma inOrder_fresh (h : fresh net phase preference w = .ok b) : b.InOrder where
  tallies t ht := by
    rw [fresh_tallies h t ht]
    exact ⟨Flags.ordered_none, fun _ => rfl⟩
  balance := by
    rw [(fresh_ok h).2.2.2.2.1]
    exact ⟨Nat.le_refl 0, Nat.le_refl 0⟩

lemma Reached.inOrder (h : Reached net preference w b) : b.InOrder := by
  obtain ⟨_, a, ha, hchanges⟩ := h.changes
  exact inOrder_changes hchanges (inOrder_fresh ha)

/-! ### Counts over the analysed validators -/

/-- The tallies that the summary of the first epoch counts. -/
def analysedTallies (b : Bundle) : List ValidatorTally :=
  b.analysedValidators.filterMap (b.tallies[·]?)

/-- No analysed validator is left out. -/
lemma Reached.length_analysedTallies (h : Reached net preference w b) :
    b.analysedTallies.length = b.analysedValidators.length := by
  rw [analysedTallies, List.length_filterMap_eq_countP, List.countP_eq_length]
  intro v hv
  rw [isSome_getElem?, h.length_tallies, ← h.window]
  exact Snapshot.lt_of_mem_activeIndices hv

end Bundle

/-- A flag that is missing for a tally is missing with all flags after it, and a vote is missing only
with all flags. -/
lemma countP_ordered {ts : List ValidatorTally} (h : ∀ t ∈ ts, t.Ordered) :
    ts.countP (!·.flags.source) ≤ ts.countP (!·.flags.target) ∧
      ts.countP (!·.flags.target) ≤ ts.countP (!·.flags.head) ∧
      ts.length ≤ ts.countP (·.inclusionDelay.isSome) + ts.countP (!·.flags.source) := by
  refine ⟨List.countP_mono_left fun t ht hsource => ?_,
    List.countP_mono_left fun t ht htarget => ?_, ?_⟩
  · have hflags := (h t ht).flags
    cases htarget : t.flags.target with
    | false => rfl
    | true => simp [hflags.source htarget] at hsource
  · have hflags := (h t ht).flags
    cases hhead : t.flags.head with
    | false => rfl
    | true => simp [hflags.target hhead] at htarget
  · have hvoted : ts.countP (·.flags.source) ≤ ts.countP (·.inclusionDelay.isSome) := by
      refine List.countP_mono_left fun t ht hsource => ?_
      cases hdelay : t.inclusionDelay with
      | none =>
        rw [(h t ht).absent hdelay] at hsource
        cases hsource
      | some delay => rfl
    calc ts.length = ts.countP (·.flags.source) + ts.countP (!·.flags.source) := by
          simpa using List.length_eq_countP_add_countP (·.flags.source) (l := ts)
      _ ≤ _ := Nat.add_le_add_right hvoted _

namespace Bundle

variable {net : Network} {preference : ReportPreference} {w : Window} {b : Bundle}
  {v : ValidatorIndex}

lemma InOrder.record (h : b.InOrder) {rec : ValidatorRecord} (hrec : b.resolve v = .ok rec) :
    (rec.missingSource = true → rec.missingTarget = true) ∧
      (rec.missingTarget = true → rec.missingHead = true) := by
  obtain ⟨t, ht, -, hsource, htarget, hhead⟩ := (resolve_figures hrec).tally
  have hflags := (h.tallies t (List.mem_of_getElem? ht)).flags
  rw [hsource, htarget, hhead]
  simp only [Bool.not_eq_true', Bool.eq_false_iff]
  exact ⟨mt hflags.source, mt hflags.target⟩

/-- What the summary of the first epoch counts among the analysed tallies. -/
lemma epochSummary_counts {s : EpochSummary} (h : b.epochSummary = .ok s) :
    s.missingSource = b.analysedTallies.countP (!·.flags.source) ∧
      s.missingTarget = b.analysedTallies.countP (!·.flags.target) ∧
      s.missingHead = b.analysedTallies.countP (!·.flags.head) ∧
      s.attestingValidators = b.analysedTallies.countP (·.inclusionDelay.isSome) := by
  simp only [epochSummary, Calc.bind_ok, Calc.pure_ok] at h
  obtain ⟨_, -, _, -, rfl⟩ := h
  exact ⟨rfl, rfl, rfl, rfl⟩

/-- The flags of a bundle are in order wherever they show. -/
structure FlagsInOrder (b : Bundle) : Prop where
  participation : ∀ (v : ValidatorIndex) (t : ValidatorTally), b.tallies[v]? = some t →
    (t.flags.head = true → t.flags.target = true) ∧ (t.flags.target = true → t.flags.source = true)
  voteless : ∀ (v : ValidatorIndex) (t : ValidatorTally), b.tallies[v]? = some t →
    t.inclusionDelay = none → t.flags = .none
  balance : b.attestingBalance.head ≤ b.attestingBalance.target ∧
    b.attestingBalance.target ≤ b.attestingBalance.source
  record : ∀ v rec, b.resolve v = .ok rec → (rec.missingSource = true → rec.missingTarget = true) ∧
    (rec.missingTarget = true → rec.missingHead = true)
  missing : ∀ s, b.epochSummary = .ok s → s.missingSource ≤ s.missingTarget ∧
    s.missingTarget ≤ s.missingHead ∧ s.missingHead ≤ b.analysedValidators.length
  attesting : ∀ s, b.epochSummary = .ok s →
    b.analysedValidators.length - s.missingSource ≤ s.attestingValidators ∧
      s.attestingValidators ≤ b.analysedValidators.length

/-- **The flag hierarchy.** In a built bundle a head flag implies the target flag and that the source
flag, and so it is for balances, in records and for the counts of the summary. -/
theorem flags_in_order (h : build net preference w = .ok b) : b.FlagsInOrder := by
  have hb := (reached_of_build h).inOrder
  have hordered : ∀ t ∈ b.analysedTallies, t.Ordered := by
    intro t ht
    obtain ⟨v, -, hv⟩ := List.mem_filterMap.1 ht
    exact hb.tallies t (List.mem_of_getElem? hv)
  have hlength := (reached_of_build h).length_analysedTallies
  obtain ⟨hsource, htarget, hvoted⟩ := countP_ordered hordered
  refine ⟨fun v t ht => ?_, fun v t ht => ?_, ⟨hb.balance.target, hb.balance.source⟩,
    fun v rec hrec => hb.record hrec, fun s hs => ?_, fun s hs => ?_⟩
  · have hflags := (hb.tallies t (List.mem_of_getElem? ht)).flags
    exact ⟨hflags.target, hflags.source⟩
  · exact (hb.tallies t (List.mem_of_getElem? ht)).absent
  · obtain ⟨hs₁, hs₂, hs₃, -⟩ := epochSummary_counts hs
    rw [hs₁, hs₂, hs₃, ← hlength]
    exact ⟨hsource, htarget, List.countP_le_length⟩
  · obtain ⟨hs₁, -, -, hs₂⟩ := epochSummary_counts hs
    rw [hs₁, hs₂, ← hlength]
    exact ⟨Nat.sub_le_iff_le_add.2 hvoted, List.countP_le_length⟩

/-- Three committee members. The vote of the first is included after two slots, that of the second
after three, within the limit for the target but not for the source; the third does not vote. -/
def tardyWindow : Window :=
  let block (slot : Slot) (bits : List Bool) : Block :=
    { Block.missed slot 0 with
      proposed := true
      attestations := [⟨.ofBits bits, ⟨4, 0, .zero, ⟨0, .zero⟩, ⟨1, .zero⟩⟩⟩] }
  let validator : Validator := ⟨.zero, 32, false, 0, 0, farFuture, farFuture⟩
  let snapshot (epoch : Epoch) (blocks : List Block) : Snapshot :=
    { Snapshot.placeholder epoch (4 * epoch + 3) with
      stateRoot := .ofNat 32 1
      validators := [validator, validator, validator]
      balances := [32, 32, 32]
      blockRoots := List.replicate 16 .zero
      blocks
      duties := ⟨[⟨4 * epoch, 0, [0, 1, 2]⟩], []⟩ }
  let missed (slots : List Slot) : List Block := slots.map (Block.missed · 0)
  ⟨snapshot 1 (block 6 [true, false, false] :: block 7 [false, true, false] :: missed [4, 5]),
    snapshot 2 (missed [8, 9, 10, 11]), snapshot 3 (missed [12, 13, 14, 15])⟩

lemma tardyWindow_summary :
    summaryReading Window.flaggedSlots .strictlyPositive tardyWindow
        (fun b s => (b.tallies.map (·.flags), s.missingSource, s.missingHead,
          s.attestingValidators))
      = some ([⟨true, true, false⟩, .none, .none], 2, 3, 2) := by
  cbv

/-- Of two validators that vote one has no flag. -/
theorem tardyWindow_inOrder :
    ∃ b s, build Window.flaggedSlots .strictlyPositive tardyWindow = .ok b ∧
      b.epochSummary = .ok s ∧ s.missingSource = 2 ∧ s.missingHead = 3 ∧
      s.attestingValidators = 2 ∧ b.FlagsInOrder := by
  obtain ⟨b, s, hb, hs, hread⟩ := exists_of_summaryReading tardyWindow_summary
  simp only [Prod.mk.injEq] at hread
  obtain ⟨-, hsource, hhead, hattesting⟩ := hread
  exact ⟨b, s, hb, hs, hsource, hhead, hattesting, flags_in_order hb⟩

end Bundle

end EpochRewards
