import EpochRewards.Proofs.Clearings
import EpochRewards.Proofs.Contents
import EpochRewards.Proofs.Fetches

/-!
Runs that replace rows.

Every window that has a bundle clears the slots of its own epochs and fills them again, and no
other slots. So a run leaves the rows of all other slots as they were, and a second run over the
same snapshots leaves what the first one left.
-/

namespace EpochRewards

/-- By how many epochs the rows of a table come before the end of their window. -/
def Table.lag : Table → Nat
  | .validatorRewards => 0
  | _ => windowReach

/-- States and blocks carry the epoch and the slot that they are requested under, and duties are
of slots of their epoch. -/
structure Source.Labelled (src : Source) (net : Network) (r : SlotRange) : Prop where
  placed : src.Placed
  epoch : ∀ e ∈ r.downloadEpochs.toList, ∀ i s,
    src.state (net.terminalSlot e) i = .ok s → s.epoch = e
  block : ∀ slot i b, src.block slot i = .ok b → b.slot = slot
  duties : ∀ e i d, src.duties e i = .ok d → ∀ seat ∈ d.proposers, net.epochOf seat.slot = e

lemma Source.Labelled.dated {src : Source} {net : Network} {r : SlotRange}
    (h : src.Labelled net r) : src.Dated net r := ⟨h.placed, h.epoch⟩

/-! ### Slots at the end of the counting -/

namespace Network

variable {net : Network} {e : Nat}

/-- All epochs whose slots cannot be counted have the same last slot. -/
lemma terminalSlot_of_not_counts (h : ¬ net.Counts e) : net.terminalSlot e = Word.max - 1 := by
  have hpos := net.slotsPerEpoch.pos
  have hmax : Word.max ≤ min (e + 1) Word.max * net.slotsPerEpoch.val := by
    rcases Nat.le_total (e + 1) Word.max with he | he
    · rw [Nat.min_eq_left he]
      exact Nat.le_of_lt (Nat.lt_of_not_le h)
    · rw [Nat.min_eq_right he]
      exact Nat.le_mul_of_pos_right _ hpos
  have hstart : net.startSlot (Word.satAdd e 1) = Word.max := Nat.min_eq_right hmax
  rw [terminalSlot, hstart]

/-- The slots of an epoch can be counted if the next one does not end with the same slot. -/
lemma counts_of_ne (h : net.terminalSlot e ≠ net.terminalSlot (e + 1)) : net.Counts e := by
  by_contra hn
  have hn' : ¬ net.Counts (e + 1) := fun hc => hn (hc.mono (Nat.le_succ e))
  rw [terminalSlot_of_not_counts hn, terminalSlot_of_not_counts hn'] at h
  exact h rfl

/-- The last slot of an epoch lies in it, unless the epoch before ends with the same one. -/
lemma epochOf_terminalSlot_of_ne
    (h : ∀ n, e = n + 1 → net.terminalSlot n ≠ net.terminalSlot e) :
    net.epochOf (net.terminalSlot e) = e := by
  by_cases hc : net.Counts e
  · exact epochOf_terminalSlot hc
  · -- Of the epochs that cannot be counted only the first one still contains the last slot.
    have hlast := terminalSlot_of_not_counts hc
    have hover : Word.max < (e + 1) * net.slotsPerEpoch.val := Nat.lt_of_not_le hc
    have hfirst : e * net.slotsPerEpoch.val ≤ Word.max - 1 := by
      cases e with
      | zero =>
        rw [Nat.zero_mul]
        exact Nat.zero_le _
      | succ n =>
        have hne := h n rfl
        have hn := counts_of_ne hne
        have hle : (n + 1) * net.slotsPerEpoch.val ≤ Word.max := hn
        rw [terminalSlot_eq hn, hlast] at hne
        have arith (a m : Nat) (ha : a ≤ m) (hne : a - 1 ≠ m - 1) : a ≤ m - 1 := by omega
        exact arith _ _ hle hne
    rw [hlast, epochOf]
    exact Nat.div_eq_of_lt_le hfirst (Nat.lt_of_le_of_lt (Nat.sub_le _ _) hover)

/-- The slots of an epoch lie in it. -/
lemma epochOf_of_mem_slotsOf {slots : List Slot} {slot : Slot} (h : net.slotsOf e = .ok slots)
    (hs : slot ∈ slots) : net.epochOf slot = e := by
  have hslots : List.range' (net.startSlot e) (net.startSlot (e + 1) - net.startSlot e)
      = slots := by
    simp only [slotsOf, endSlot, Calc.bind_ok, Calc.pure_ok, Word.add_ok] at h
    obtain ⟨_, ⟨_, ⟨-, rfl⟩, rfl⟩, h⟩ := h
    exact h
  rw [← hslots, List.mem_range'_1] at hs
  have hstart : net.startSlot e = min (e * net.slotsPerEpoch.val) Word.max := rfl
  have hend : net.startSlot (e + 1) = min ((e + 1) * net.slotsPerEpoch.val) Word.max := rfl
  rw [hstart, hend] at hs
  rw [epochOf]
  exact Nat.div_eq_of_lt_le (by omega) (by omega)

end Network

/-! ### Snapshots -/

/-- A test of rows that are not renewed is as before. -/
lemma filter_renewed {cleared : List Slot} {test : Row → Bool} {old new : List Row}
    (htest : ∀ row, test row = true → row.slot ∉ cleared)
    (hnew : ∀ row ∈ new, row.slot ∈ cleared) :
    (old.filter (fun row => row.slot ∉ cleared) ++ new).filter test = old.filter test := by
  have hnone : new.filter test = [] :=
    List.filter_eq_nil_iff.2 fun row hrow hpass => htest row hpass (hnew row hrow)
  rw [List.filter_append, hnone, List.append_nil, List.filter_filter]
  refine List.filter_congr fun row _ => ?_
  cases hpass : test row with
  | true => exact (Bool.true_and _).trans (decide_eq_true (htest row hpass))
  | false => exact Bool.false_and _

namespace Plan

variable {p : Plan} {net : Network} {src : Source} {requests : Requests} {e : Nat}
  {s : Snapshot} {w : Window} {slot : Slot} {t : Table}

lemma holds_snapshots (h : (e, some s) ∈ p.snapshots net src requests) : src.Holds net e s := by
  obtain ⟨_, _, hrun⟩ := Order.run_of_mem_outcomes h
  exact Source.holds_snapshot hrun

lemma epochOf_duty (hsrc : src.Labelled net (p.slots net))
    (h : (e, some s) ∈ p.snapshots net src requests) {seat : ProposerSeat}
    (hseat : seat ∈ s.duties.proposers) : net.epochOf seat.slot = e := by
  obtain ⟨i, hi⟩ := (holds_snapshots h).duties
  exact hsrc.duties e i _ hi seat hseat

lemma epochOf_block (hsrc : src.Labelled net (p.slots net))
    (h : (e, some s) ∈ p.snapshots net src requests) {b : Block} (hb : b ∈ s.blocks) :
    net.epochOf b.slot = e := by
  obtain ⟨slots, hslots, hserved⟩ := (holds_snapshots h).blocks
  obtain ⟨slot, hmem, hserves⟩ := hserved b hb
  have hslot : b.slot = slot := by
    rcases hserves with ⟨i, given, hgiven, he⟩ | ⟨v, he⟩
    · rw [he]
      exact hsrc.block slot i given hgiven
    · rw [he]
      rfl
  rw [hslot]
  exact Network.epochOf_of_mem_slotsOf hslots hmem

/-- A window ends in its last epoch. -/
lemma epochOf_next (hsrc : src.Labelled net (p.slots net))
    (h : (p.snapshots net src requests).windowAt e = some w) :
    net.epochOf w.next.slot = e := by
  obtain ⟨hnext, hcurrent, -, -⟩ := Outcomes.mem_of_windowAt h
  rw [terminalSlot_snapshots hsrc.dated hnext]
  refine Network.epochOf_terminalSlot_of_ne fun n hn heq => ?_
  have hmem : n ∈ (p.slots net).downloadEpochs.toList := by
    have hone : e - 1 = n := by omega
    rw [← hone]
    exact mem_downloads (hcurrent (by omega))
  have hsame := epoch_unique hsrc.dated hnext hmem heq.symm
  omega

/-- A window starts in its first epoch. -/
lemma epochOf_prev (hsrc : src.Labelled net (p.slots net))
    (h : (p.snapshots net src requests).windowAt e = some w) (he : windowReach ≤ e) :
    net.epochOf w.prev.slot = e - windowReach := by
  obtain ⟨-, hcurrent, hprev, -⟩ := Outcomes.mem_of_windowAt h
  have hreach : windowReach = 2 := rfl
  have hfirst := hprev he
  have hmiddle : e - 1 = e - windowReach + 1 := by omega
  have hmem := mem_downloads (hcurrent (by omega))
  rw [terminalSlot_snapshots hsrc.dated hfirst]
  refine Network.epochOf_terminalSlot (Network.counts_of_ne fun heq => ?_)
  rw [← hmiddle] at heq
  have hsame := epoch_unique hsrc.dated hfirst hmem heq
  omega

/-- The slots with rows about the first epoch of a window lie in it. -/
lemma epochOf_firstSlots (hsrc : src.Labelled net (p.slots net))
    (h : (p.snapshots net src requests).windowAt e = some w) (he : windowReach ≤ e)
    (hslot : slot ∈ w.firstSlots t) : net.epochOf slot + windowReach = e := by
  have hfirst := (Outcomes.mem_of_windowAt h).2.2.1 he
  suffices hepoch : net.epochOf slot = e - windowReach by
    rw [hepoch]
    exact Nat.sub_add_cancel he
  cases t with
  | validatorRewards => cases hslot
  | epochSummary =>
    rw [List.mem_singleton.1 hslot]
    exact epochOf_prev hsrc h he
  | proposerDuties =>
    obtain ⟨seat, hseat, rfl⟩ := List.mem_map.1 hslot
    exact epochOf_duty hsrc hfirst hseat
  | blocks | attestations | withdrawals =>
    obtain ⟨b, hb, rfl⟩ := List.mem_map.1 hslot
    exact epochOf_block hsrc hfirst hb

/-- The slots that a window clears lie in its first or last epoch, as the table has it. -/
lemma epochOf_cleared (hsrc : src.Labelled net (p.slots net))
    (h : (p.snapshots net src requests).windowAt e = some w)
    (hslot : slot ∈ p.cleared net (p.slots net) t w) : net.epochOf slot + t.lag = e := by
  unfold cleared at hslot
  split at hslot
  · rw [SlotRange.renewed, List.mem_append] at hslot
    rcases hslot with hslot | hslot
    · split at hslot
      · next hwrites =>
        have he : windowReach ≤ e := by
          by_contra hlt
          have hplaceholder := (Outcomes.mem_of_windowAt h).2.2.2 (Nat.lt_of_not_le hlt)
          rw [SlotRange.writesEpochRows, hplaceholder] at hwrites
          cases hwrites
        have hepoch := epochOf_firstSlots hsrc h he hslot
        cases t with
        | validatorRewards => cases hslot
        | epochSummary | proposerDuties | blocks | attestations | withdrawals => exact hepoch
      · cases hslot
    · split at hslot
      · cases t with
        | validatorRewards =>
          rw [List.mem_singleton.1 hslot]
          exact epochOf_next hsrc h
        | epochSummary | proposerDuties | blocks | attestations | withdrawals => cases hslot
      · cases hslot
  · cases hslot

/-! ### Runs -/

/-- The slots of a table that the windows with a bundle clear. -/
def clearedSlots (p : Plan) (net : Network) (src : Source) (requests : Requests) (t : Table) :
    List Slot :=
  (p.windows net src requests).flatMap (p.cleared net (p.slots net) t)

lemma mem_clearedSlots (hsrc : src.Labelled net (p.slots net))
    (h : slot ∈ p.clearedSlots net src requests t) :
    ∃ e, p.bundleAt net src requests e ≠ none ∧ net.epochOf slot + t.lag = e := by
  obtain ⟨w, hw, hslot⟩ := List.mem_flatMap.1 h
  obtain ⟨e, -, hwe⟩ := List.mem_filterMap.1 hw
  refine ⟨e, ?_, epochOf_cleared hsrc hwe hslot⟩
  intro hnone
  rw [bundleAt, hwe] at hnone
  have hbundle : p.bundleOf net w = none := hnone
  rw [cleared, hbundle] at hslot
  cases hslot

/-- No two windows of a run clear the same slot of a table. -/
lemma cleared_apart (hsrc : src.Labelled net (p.slots net)) :
    (p.windows net src requests).Pairwise fun w w' => ∀ t, ∀ slot ∈ p.cleared net (p.slots net) t w,
      slot ∉ p.cleared net (p.slots net) t w' := by
  refine List.pairwise_filterMap.2 ((EpochSpan.pairwise_toList _).imp fun {e e'} hlt => ?_)
  intro w hw w' hw' t slot hslot hslot'
  have he := epochOf_cleared hsrc hw hslot
  have he' := epochOf_cleared hsrc hw' hslot'
  exact absurd (he.symm.trans he') (Nat.ne_of_lt hlt)

variable {contents : MemoryStore} {fin : RunEnd MemoryStore} {report : RunReport}

/-- What a run with replacements leaves of a table: the old rows of the slots that were not
cleared and new rows of those that were. -/
lemma Ends.replaced (hreplace : p.replaceRows = true) (hsrc : src.Labelled net (p.slots net))
    (hopen : contents.closed = false)
    (h : p.Ends net src MemoryStore.store requests contents fin) (hok : fin.result = .ok report) :
    ∃ counts queued log, p.processAll net (p.slots net) (p.windows net src requests)
        = .ok (counts, queued) ∧ Interleaved queued [] log ∧
      ∀ t, fin.contents.rows t = (contents.rows t).filter
          (fun row => row.slot ∉ p.clearedSlots net src requests t)
            ++ rowsIn t (log.map Entry.message) ∧
        ∀ row ∈ rowsIn t (log.map Entry.message),
          row.slot ∈ p.clearedSlots net src requests t := by
  obtain ⟨a, queued, log, hdone, -, hclose⟩ :=
    h.complete hok hsrc.placed (unshared_snapshots hsrc.dated)
  have hrenews := processAll_renew hreplace hdone.dispatched (cleared_apart hsrc)
  have hold (t : Table) : MemoryStore.store.rows contents t = .ok (contents.rows t) := rfl
  refine ⟨_, queued, log, hdone.dispatched, hdone.interleaved, fun t => ⟨?_, fun row hrow => ?_⟩⟩
  · have hshown := hdone.shown MemoryStore.accepting_store MemoryStore.keeping_store hopen hold
      hclose t
    rw [hdone.interleaved.effect hrenews.spares, hrenews.clears] at hshown
    exact Except.ok.inj hshown
  · obtain ⟨hlogged, rfl⟩ := mem_rowsIn.1 hrow
    obtain ⟨d, hd, hmem⟩ := hdone.interleaved.dispatched hlogged
    exact hrenews.rows d hd row hmem

lemma uncleared (hsrc : src.Labelled net (p.slots net))
    (hnone : p.bundleAt net src requests e = none)
    (hslot : slot ∈ p.clearedSlots net src requests t) : net.epochOf slot + t.lag ≠ e := by
  obtain ⟨e', hbundle, he'⟩ := mem_clearedSlots hsrc hslot
  intro heq
  rw [← heq, he'] at hnone
  exact hbundle hnone

/-- All runs over a source that does not change are over the same snapshots. -/
theorem snapshots_steady (h : src.Steady) (requests again : Requests) :
    p.snapshots net src again = p.snapshots net src requests :=
  Order.outcomes_steady (o := p.order net src) h again requests _

/-- **Rewriting is local and idempotent.** Under every schedule, a run with replacements that
ends well keeps in every table the rows of slots that no window with a bundle clears, in their
order, and all its new rows are of cleared slots. The rows of a window without a bundle are as
they were. After a second run over the same snapshots every table has the same rows as after the
first, up to order. -/
theorem Ends.rewrites (hreplace : p.replaceRows = true) (hsrc : src.Labelled net (p.slots net))
    (hopen : contents.closed = false)
    (h : p.Ends net src MemoryStore.store requests contents fin) (hok : fin.result = .ok report) :
    (∀ t, ∃ new, fin.contents.rows t = (contents.rows t).filter
          (fun row => row.slot ∉ p.clearedSlots net src requests t) ++ new ∧
        ∀ row ∈ new, row.slot ∈ p.clearedSlots net src requests t) ∧
      (∀ e ∈ (p.slots net).windowEpochs.toList, p.bundleAt net src requests e = none →
        ∀ t, (fin.contents.rows t).filter (fun row => net.epochOf row.slot + t.lag = e)
          = (contents.rows t).filter fun row => net.epochOf row.slot + t.lag = e) ∧
      ∀ (again : Requests) (reopened : MemoryStore) (fin' : RunEnd MemoryStore)
        (report' : RunReport),
        p.snapshots net src again = p.snapshots net src requests →
        reopened.closed = false → (∀ t, reopened.rows t = fin.contents.rows t) →
        p.Ends net src MemoryStore.store again reopened fin' → fin'.result = .ok report' →
          ∀ t, (fin'.contents.rows t).Perm (fin.contents.rows t) := by
  obtain ⟨counts, queued, log, hqueued, hlog, hrows⟩ := h.replaced hreplace hsrc hopen hok
  refine ⟨fun t => ⟨_, hrows t⟩, fun e _ hnone t => ?_, ?_⟩
  · rw [(hrows t).1]
    refine filter_renewed (fun row htest hslot => ?_) (hrows t).2
    exact uncleared hsrc hnone hslot (of_decide_eq_true htest)
  · -- What the first run added is of cleared slots, so the second run clears all of it.
    intro again reopened fin' report' hsame hopen' hreopened h' hok' t
    obtain ⟨counts', queued', log', hqueued', hlog', hrows'⟩ :=
      h'.replaced hreplace hsrc hopen' hok'
    have hwindows : p.windows net src again = p.windows net src requests := by
      rw [windows, windows, hsame]
    have hcleared : p.clearedSlots net src again t = p.clearedSlots net src requests t := by
      rw [clearedSlots, clearedSlots, hwindows]
    have hboth : queued' = queued := by
      rw [hwindows, hqueued] at hqueued'
      exact (Prod.mk.inj (Except.ok.inj hqueued')).2.symm
    have hnew : (rowsIn t (log'.map Entry.message)).Perm (rowsIn t (log.map Entry.message)) := by
      have hperm := hlog'.perm_rowsIn t
      rw [hboth] at hperm
      exact hperm.trans (hlog.perm_rowsIn t).symm
    have hkept : (fin.contents.rows t).filter
          (fun row => row.slot ∉ p.clearedSlots net src requests t)
        = (contents.rows t).filter
          (fun row => row.slot ∉ p.clearedSlots net src requests t) := by
      rw [(hrows t).1]
      exact filter_renewed (fun row htest => of_decide_eq_true htest) (hrows t).2
    rw [(hrows' t).1, hreopened, hcleared, hkept, (hrows t).1]
    exact hnew.append_left _

/-- The first two epochs again, with replacements. -/
def rewritePlan : Plan := { briefPlan with replaceRows := true }

/-- A store with duties of both epochs. -/
def staleStore : MemoryStore :=
  ⟨(PerTable.fill []).set .proposerDuties [.duty ⟨5, 0, true⟩, .duty ⟨5, 1, true⟩], false⟩

lemma labelled_briefSource : briefSource.Labelled briefNetwork (rewritePlan.slots briefNetwork) where
  placed := faithful_briefSource.placed
  epoch e he i s hs := by
    have hcounts : ∀ e ∈ (rewritePlan.slots briefNetwork).downloadEpochs.toList,
        briefNetwork.Counts e := by decide
    obtain ⟨-, hepoch, -⟩ := faithful_briefSource _ i s hs
    exact hepoch.trans (Network.epochOf_terminalSlot (hcounts e he))
  block slot i b hb := by cases hb
  duties e i d hd seat hseat := by
    cases hd
    rw [List.mem_singleton.1 hseat]
    exact Nat.div_one e

lemma steady_briefSource : briefSource.Steady :=
  ⟨fun _ _ _ => rfl, fun _ _ _ => rfl, fun _ _ _ => rfl, fun _ _ _ => rfl⟩

/-- What the plan leaves of that store. -/
def rewritten : RunEnd MemoryStore :=
  rewritePlan.run briefNetwork briefSource MemoryStore.store false .none staleStore

def reopened : MemoryStore := { rewritten.contents with closed := false }

/-- The duty of epoch 1 is kept, since the window with which it starts is incomplete, and a second
run that goes on with the requests of the first changes nothing. -/
theorem brief_rewrites :
    rewritePlan.replaceRows = true ∧
      briefSource.Labelled briefNetwork (rewritePlan.slots briefNetwork) ∧
        staleStore.closed = false ∧ ∃ report,
          rewritePlan.Ends briefNetwork briefSource MemoryStore.store .none staleStore rewritten ∧
            rewritten.result = .ok report ∧
              (rewritten.contents.rows .proposerDuties).filter
                (fun row => briefNetwork.epochOf row.slot + windowReach = 3)
                  = [.duty ⟨5, 1, true⟩] ∧
                ∃ fin report', rewritePlan.Ends briefNetwork briefSource MemoryStore.store
                    rewritten.requests reopened fin ∧ fin.result = .ok report' ∧
                  ∀ t, (fin.contents.rows t).Perm (rewritten.contents.rows t) := by
  have hends := ends_run rewritePlan briefNetwork briefSource MemoryStore.store .none staleStore
  have hends' := ends_run rewritePlan briefNetwork briefSource MemoryStore.store rewritten.requests
    reopened
  have hok : rewritten.result.toOption.isSome = true := by cbv
  have hok' : (rewritePlan.run briefNetwork briefSource MemoryStore.store false
      rewritten.requests reopened).result.toOption.isSome = true := by cbv
  obtain ⟨report, hreport⟩ := Calc.ok_of_isSome hok
  obtain ⟨report', hreport'⟩ := Calc.ok_of_isSome hok'
  obtain ⟨-, huntouched, hagain⟩ :=
    Ends.rewrites rfl labelled_briefSource rfl hends hreport
  have hincomplete : rewritePlan.bundleAt briefNetwork briefSource .none 3 = none := by cbv
  have hkept := huntouched 3 (by decide) hincomplete .proposerDuties
  have hsame : rewritePlan.snapshots briefNetwork briefSource rewritten.requests
      = rewritePlan.snapshots briefNetwork briefSource .none :=
    snapshots_steady steady_briefSource .none rewritten.requests
  have hsecond := hagain _ reopened _ report' hsame rfl (fun _ => rfl) hends' hreport'
  refine ⟨rfl, labelled_briefSource, rfl, report, hends, hreport, ?_, _, report', hends', hreport',
    hsecond⟩
  have hold : (staleStore.rows .proposerDuties).filter
      (fun row => briefNetwork.epochOf row.slot + windowReach = 3) = [.duty ⟨5, 1, true⟩] := by
    decide
  exact hkept.trans hold

end Plan

end EpochRewards
