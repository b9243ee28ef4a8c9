import EpochRewards.Proofs.Contents

/-!
What the report of a run tells.

A requested epoch is reported as abandoned if and only if one of the two windows that give rows
about it has no bundle. Of an epoch that is not reported everything is left in the store but the
records that could not be resolved.
-/

namespace EpochRewards

/-- A row on a validator for an epoch. -/
def Row.isOn (e : Epoch) (v : ValidatorIndex) : Row → Bool
  | .validator rec => rec.epoch == e && rec.validator == v
  | _ => false

/-- What one element of a list without repetitions is mapped to can be told from the rest. -/
lemma filter_filterMap_of_nodup {α β : Type} {f : α → Option β} {test : β → Bool} {x : α}
    {xs : List α} (hxs : xs.Nodup) (hx : x ∈ xs)
    (h : ∀ y ∈ xs, ∀ b, f y = some b → (test b = true ↔ y = x)) :
    (xs.filterMap f).filter test = (f x).toList := by
  have hnone : ∀ ys : List α, x ∉ ys → (∀ y ∈ ys, ∀ b, f y = some b → (test b = true ↔ y = x)) →
      (ys.filterMap f).filter test = [] := by
    intro ys hys htest
    refine List.filter_eq_nil_iff.2 fun b hb htrue => ?_
    obtain ⟨y, hy, hfy⟩ := List.mem_filterMap.1 hb
    exact hys ((htest y hy b hfy).1 htrue ▸ hy)
  obtain ⟨before, after, rfl⟩ := List.append_of_mem hx
  obtain ⟨-, hafter, hbefore⟩ := List.nodup_append.1 hxs
  have hb := hnone before (fun hm => hbefore x hm x List.mem_cons_self rfl)
    fun y hy => h y (List.mem_append_left _ hy)
  have ha := hnone after (List.nodup_cons.1 hafter).1
    fun y hy => h y (List.mem_append_right _ (List.mem_cons_of_mem _ hy))
  rw [List.filterMap_append, List.filter_append, hb, List.nil_append]
  cases hfx : f x with
  | none => rw [List.filterMap_cons_none hfx, ha]; rfl
  | some b =>
    have htest : test b = true :=
      (h x (List.mem_append_right _ List.mem_cons_self) b hfx).2 rfl
    rw [List.filterMap_cons_some hfx, List.filter_cons_of_pos htest, ha]
    rfl

/-- The rows of each of several bundles are among those of all. -/
lemma Bundle.infix_allEpochRows {bs : List Bundle} {b : Bundle} {t : Table} {rows : List Row}
    (h : allEpochRows bs t = .ok rows) (hb : b ∈ bs) :
    ∃ part, b.epochRows t = .ok part ∧ part <:+: rows := by
  simp only [allEpochRows, Calc.bind_ok, Calc.pure_ok] at h
  obtain ⟨parts, hparts, rfl⟩ := h
  rw [Calc.mapM_ok] at hparts
  induction hparts with
  | nil => cases hb
  | @cons c part bs parts hc _ ih =>
    rcases List.mem_cons.1 hb with rfl | hb
    · exact ⟨part, hc, (List.prefix_append part parts.flatten).isInfix⟩
    · obtain ⟨part', hpart', hinfix⟩ := ih hb
      exact ⟨part', hpart', hinfix.trans (List.suffix_append part parts.flatten).isInfix⟩

namespace Plan

variable {σ : Type} {p : Plan} {net : Network} {src : Source} {store : Store σ}
  {requests : Requests} {contents : σ} {fin : RunEnd σ} {report : RunReport} {a : Analysis σ}
  {queued : List Dispatch} {log : List Entry}

lemma mem_abandonedEpochs {r : SlotRange} {e : Epoch} :
    e ∈ (a.runReport r).abandonedEpochs
      ↔ ∃ n ∈ a.download.abandoned ++ a.report.abandoned, e ∈ r.coveredBy n := by
  rw [Analysis.runReport, Ledger.mem_keys_iff, Ledger.get?_ofList_const, ← List.mem_flatMap]
  split
  · next h => exact ⟨fun _ => h, fun _ => rfl⟩
  · next h => exact ⟨fun hs => absurd hs Bool.false_ne_true, fun hm => absurd hm h⟩

/-- The windows that are given up are those without a bundle. -/
lemma Completed.mem_abandoned (hsrc : src.Faithful net) (hfits : (p.slots net).Fits net)
    (h : Completed p net src store requests contents a queued log) {n : Epoch} :
    n ∈ a.download.abandoned ++ a.report.abandoned
      ↔ n ∈ (p.slots net).windowEpochs.toList ∧ p.bundleAt net src requests n = none := by
  obtain ⟨-, -, -, hreport⟩ := processAll_dispatches h.dispatched
  have hends {e : Epoch} {w : Window} (he : e ∈ (p.slots net).windowEpochs.toList)
      (hw : (p.snapshots net src requests).windowAt e = some w) : w.next.epoch = e :=
    (endsAt_windowAt hsrc (hfits.counts_of_le (hfits.le_lastWindow he)) hw).next.epoch
  rw [h.abandoned, hreport, List.mem_append, List.mem_filter]
  constructor
  · rintro (⟨hn, hnone⟩ | hn)
    · refine ⟨hn, ?_⟩
      rw [bundleAt, Option.isNone_iff_eq_none.1 hnone]
      rfl
    · obtain ⟨w, hw, rfl⟩ := List.mem_map.1 hn
      obtain ⟨hw, hnone⟩ := List.mem_filter.1 hw
      obtain ⟨e, he, hwe⟩ := List.mem_filterMap.1 hw
      rw [hends he hwe, bundleAt, hwe]
      exact ⟨he, Option.isNone_iff_eq_none.1 hnone⟩
  · rintro ⟨hn, hnone⟩
    cases hw : (p.snapshots net src requests).windowAt n with
    | none => exact .inl ⟨hn, rfl⟩
    | some w =>
      rw [bundleAt, hw] at hnone
      refine .inr (List.mem_map.2 ⟨w, List.mem_filter.2 ⟨?_, ?_⟩, hends hn hw⟩)
      · exact List.mem_filterMap.2 ⟨n, hn, hw⟩
      · exact Option.isNone_iff_eq_none.2 hnone

/-- What the report lists. -/
lemma Completed.mem_report (hsrc : src.Faithful net) (hfits : (p.slots net).Fits net)
    (h : Completed p net src store requests contents a queued log) {e : Epoch}
    (he : e ∈ p.epochs net) :
    e ∈ (a.runReport (p.slots net)).abandonedEpochs ↔
      p.bundleAt net src requests e = none ∨
        p.bundleAt net src requests (e + windowReach) = none := by
  obtain ⟨hlast, hfirst⟩ := hfits.mem_windowEpochs he
  rw [mem_abandonedEpochs]
  constructor
  · rintro ⟨n, hn, hcovered⟩
    obtain ⟨-, hnone⟩ := (h.mem_abandoned hsrc hfits).1 hn
    rcases (SlotRange.mem_coveredBy.1 hcovered).2 with rfl | rfl
    · exact .inl hnone
    · exact .inr hnone
  · rintro (hnone | hnone)
    · exact ⟨e, (h.mem_abandoned hsrc hfits).2 ⟨hlast, hnone⟩,
        SlotRange.mem_coveredBy.2 ⟨he, .inl rfl⟩⟩
    · exact ⟨_, (h.mem_abandoned hsrc hfits).2 ⟨hfirst, hnone⟩,
        SlotRange.mem_coveredBy.2 ⟨he, .inr rfl⟩⟩

/-- A record is on the validator and the epoch that it was resolved for. -/
lemma isOn_recordAt (hsrc : src.Faithful net) (hfits : (p.slots net).Fits net)
    {x y : Epoch × ValidatorIndex} {row : Row} (hy : y ∈ p.pairs net src requests)
    (h : (p.recordAt net src requests y).map Row.validator = some row) :
    row.isOn x.1 x.2 = true ↔ y = x := by
  obtain ⟨rec, hrec, rfl⟩ := Option.map_eq_some_iff.1 h
  simp only [recordAt, Option.bind_eq_bind, Option.bind_eq_some_iff] at hrec
  obtain ⟨b, hb, hresolved⟩ := hrec
  obtain ⟨e, he, hmap⟩ := List.mem_flatMap.1 hy
  obtain ⟨v, -, rfl⟩ := List.mem_map.1 hmap
  obtain ⟨w, hw, hbundle⟩ := Option.bind_eq_some_iff.1 hb
  have hle := hfits.le_lastWindow (hfits.mem_windowEpochs he).1
  have hends := endsAt_windowAt hsrc (hfits.counts_of_le hle) hw
  obtain ⟨hvalidator, hepoch, -, -⟩ := Bundle.resolve_ok (Calc.toOption_eq_some.1 hresolved)
  rw [Row.isOn, hvalidator, hepoch, window_bundleOf hbundle, hends.next.epoch, Bool.and_eq_true,
    beq_iff_eq, beq_iff_eq, Prod.ext_iff]

/-! ### What is left of an epoch -/

/-- Of the records in the log at most one is on a validator for an epoch. -/
lemma Completed.filter_isOn (hpools : p.pools = []) (hreplace : p.replaceRows = false)
    (hsrc : src.Faithful net) (hfits : (p.slots net).Fits net)
    (h : Completed p net src store requests contents a queued log) {e : Epoch} {b : Bundle}
    (he : e ∈ p.epochs net) (hb : p.bundleAt net src requests e = some b) {v : ValidatorIndex}
    (hv : v ∈ p.analysed b) :
    (rowsIn .validatorRewards (log.map Entry.message)).filter (·.isOn e v)
      = ((b.resolve v).toOption.map Row.validator).toList := by
  have hyields := processAll_yields hpools hreplace h.dispatched
  have hcrew : ∀ row ∈ log.filterMap Sum.getRight?, row.table = .validatorRewards :=
    fun row hrow => table_taskRows row (h.resolved.mem_iff.1 hrow)
  have hnone : rowsIn .validatorRewards (log.filterMap Sum.getLeft?) = [] := by
    have hnone := hyields.rows .validatorRewards
    rw [Bundle.allEpochRows_validatorRewards] at hnone
    rw [h.sent]
    exact (Except.ok.inj hnone).symm
  have hpair : (e, v) ∈ p.pairs net src requests := by
    refine List.mem_flatMap.2 ⟨e, he, List.mem_map.2 ⟨v, ?_, rfl⟩⟩
    rw [hb]
    exact hv
  have hrecord : p.recordAt net src requests (e, v) = (b.resolve v).toOption := by
    rw [recordAt, hb]
    rfl
  have hrecords := hyields.records
  rw [bundles_records hsrc hfits, recordRows_pairs] at hrecords
  -- The crew logs records in any order, but at most one of them is on this pair.
  have hone := filter_filterMap_of_nodup (nodup_pairs p net src requests) hpair
    fun y hy row hrow => isOn_recordAt (x := (e, v)) hsrc hfits hy hrow
  have hperm := h.resolved.filter (·.isOn e v)
  rw [hrecords, hone, hrecord] at hperm
  rw [rowsIn_log_resolved hcrew hnone]
  cases hr : (b.resolve v).toOption.map Row.validator with
  | none =>
    rw [hr] at hperm
    exact List.perm_nil.1 hperm
  | some row =>
    rw [hr] at hperm
    exact List.perm_singleton.1 hperm

/-- The other rows about an epoch stand together in the log. -/
lemma Completed.infix_rowsIn (hpools : p.pools = []) (hreplace : p.replaceRows = false)
    (hsrc : src.Faithful net) (hfits : (p.slots net).Fits net)
    (h : Completed p net src store requests contents a queued log) {e : Epoch} {c : Bundle}
    (he : e ∈ p.epochs net) (hc : p.bundleAt net src requests (e + windowReach) = some c)
    {t : Table} (ht : t ≠ .validatorRewards) :
    ∃ part, c.epochRows t = .ok part ∧ part <:+: rowsIn t (log.map Entry.message) := by
  have hother : ∀ row ∈ log.filterMap Sum.getRight?, row.table ≠ t := by
    intro row hrow htable
    exact ht (htable.symm.trans (table_taskRows row (h.resolved.mem_iff.1 hrow)))
  have hrows := (processAll_yields hpools hreplace h.dispatched).rows t
  rw [bundles_rows hsrc hfits, ← h.sent, ← rowsIn_log_sent hother] at hrows
  exact Bundle.infix_allEpochRows hrows (List.mem_filterMap.2 ⟨e, he, hc⟩)

/-- **What the report tells.** Under every schedule, a run without pools and replacements over an
empty store that accepts every call and keeps what it is given reports a requested epoch if and
only if a window that gives rows about it has no bundle. Of the other requested epochs the store
has all rows of the bundle two epochs later, and the record of every analysed validator that has
one: an epoch is not reported for the records that cannot be resolved. -/
theorem Ends.abandoned_iff (hpools : p.pools = []) (hreplace : p.replaceRows = false)
    (hslots : (net.epochOf p.finalSlot + 3) * net.slotsPerEpoch.val ≤ Word.max)
    (hsrc : src.Faithful net) (ha : store.Accepting) (hk : store.Keeping)
    (hopen : store.isClosed contents = false) (hempty : ∀ t, store.rows contents t = .ok [])
    (h : p.Ends net src store requests contents fin) (hok : fin.result = .ok report) :
    ∀ e ∈ p.epochs net,
      (e ∈ report.abandonedEpochs ↔ p.bundleAt net src requests e = none ∨
        p.bundleAt net src requests (e + windowReach) = none) ∧
      (e ∉ report.abandonedEpochs → ∃ b c, p.bundleAt net src requests e = some b ∧
        p.bundleAt net src requests (e + windowReach) = some c ∧
          (∃ records, store.rows fin.contents .validatorRewards = .ok records ∧
            ∀ v ∈ p.analysed b, records.filter (·.isOn e v)
              = ((b.resolve v).toOption.map Row.validator).toList) ∧
          ∀ t, t ≠ .validatorRewards → ∃ part rows, c.epochRows t = .ok part ∧
            store.rows fin.contents t = .ok rows ∧ part <:+: rows) := by
  have hfits : (p.slots net).Fits net := fits_slots hslots
  obtain ⟨a, queued, log, hdone, hreport, hclose⟩ := h.completed hok hsrc.placed hfits.nodup_lastSlots
  have hshown (t : Table) : store.rows fin.contents t = .ok (rowsIn t (log.map Entry.message)) := by
    have hadding : ∀ m ∈ log.map Entry.message, m.isDelete = false := by
      refine isDelete_log ?_
      rw [hdone.sent]
      exact (processAll_yields hpools hreplace hdone.dispatched).adding
    rw [hdone.shown ha hk hopen hempty hclose, foldl_effect hadding, List.nil_append]
  intro e he
  have hmem : e ∈ report.abandonedEpochs ↔ p.bundleAt net src requests e = none ∨
      p.bundleAt net src requests (e + windowReach) = none := by
    rw [hreport]
    exact hdone.mem_report hsrc hfits he
  refine ⟨hmem, fun hn => ?_⟩
  rw [hmem, not_or] at hn
  obtain ⟨b, hb⟩ := Option.ne_none_iff_exists'.1 hn.1
  obtain ⟨c, hc⟩ := Option.ne_none_iff_exists'.1 hn.2
  refine ⟨b, c, hb, hc, ⟨_, hshown _, fun v hv => ?_⟩, fun t ht => ?_⟩
  · exact hdone.filter_isOn hpools hreplace hsrc hfits he hb hv
  · obtain ⟨part, hpart, hinfix⟩ := hdone.infix_rowsIn hpools hreplace hsrc hfits he hc ht
    exact ⟨part, _, hpart, hshown t, hinfix⟩

/-- A source whose state of slot 1 has no balance of its only validator. -/
def frailSource : Source where
  block slot _ := .error (.notFound .block slot)
  report slot _ := .error (.notFound .report slot)
  duties e _ := .ok ⟨[], [⟨0, e⟩]⟩
  state slot _ :=
    .ok { Snapshot.placeholder slot slot with
      stateRoot := .ofNat 32 1
      validators := [⟨.zero, 32, false, 0, 0, farFuture, farFuture⟩]
      balances := if slot = 1 then [] else [32]
      blockRoots := [.zero, .zero] }

lemma faithful_frailSource : frailSource.Faithful briefNetwork := by
  intro slot i s hs
  cases hs
  exact ⟨rfl, (Nat.div_one slot).symm, rfl⟩

lemma analysed_frail : (briefPlan.bundleAt briefNetwork frailSource .none 1).map briefPlan.analysed
    = some [0] := by cbv

lemma abandoned_frail : ∃ report, (briefPlan.run briefNetwork frailSource MemoryStore.store false
    .none .empty).result = .ok report ∧ report.abandonedEpochs = [] := by
  have hnone : ((briefPlan.run briefNetwork frailSource MemoryStore.store false .none
      .empty).result.toOption.map RunReport.abandonedEpochs) = some [] := by cbv
  obtain ⟨report, hok, habandoned⟩ := Option.map_eq_some_iff.1 hnone
  exact ⟨report, Calc.toOption_eq_some.1 hok, habandoned⟩

/-- Epoch 1 of `frailSource` is not reported, and its only validator has no record. -/
theorem frail_abandoned_iff :
    briefPlan.pools = [] ∧ briefPlan.replaceRows = false ∧
      (briefNetwork.epochOf briefPlan.finalSlot + 3) * briefNetwork.slotsPerEpoch.val ≤ Word.max ∧
      frailSource.Faithful briefNetwork ∧ ∃ fin report,
        briefPlan.Ends briefNetwork frailSource MemoryStore.store .none .empty fin ∧
          fin.result = .ok report ∧ 1 ∉ report.abandonedEpochs ∧
            ∃ b, briefPlan.bundleAt briefNetwork frailSource .none 1 = some b ∧
              briefPlan.analysed b = [0] ∧
                (fin.contents.rows .validatorRewards).filter (·.isOn 1 0) = [] := by
  have hends := ends_run briefPlan briefNetwork frailSource MemoryStore.store .none .empty
  have hslots :
      (briefNetwork.epochOf briefPlan.finalSlot + 3) * briefNetwork.slotsPerEpoch.val ≤ Word.max := by
    decide
  have hanalysed := analysed_frail
  have hlost : briefPlan.recordAt briefNetwork frailSource .none (1, 0) = none := by cbv
  obtain ⟨report, hreport, habandoned⟩ := abandoned_frail
  have hiff := Ends.abandoned_iff rfl rfl hslots faithful_frailSource MemoryStore.accepting_store
    MemoryStore.keeping_store rfl MemoryStore.rows_empty hends hreport 1 (by decide)
  have hunreported : 1 ∉ report.abandonedEpochs := by
    rw [habandoned]
    exact List.not_mem_nil
  obtain ⟨b, -, hb, -, ⟨records, hrecords, hon⟩, -⟩ := hiff.2 hunreported
  rw [hb] at hanalysed
  have hvalidators : briefPlan.analysed b = [0] := Option.some.inj hanalysed
  have hunresolved : (b.resolve 0).toOption = none := by
    rw [recordAt, hb] at hlost
    exact hlost
  refine ⟨rfl, rfl, hslots, faithful_frailSource, _, report, hends, hreport, hunreported, b, hb,
    hvalidators, ?_⟩
  have hleft := hon 0 (by rw [hvalidators]; exact List.mem_singleton_self 0)
  rw [hunresolved] at hleft
  rw [Except.ok.inj hrecords]
  exact hleft

/-- An epoch can lose a row without being reported. -/
theorem not_always_reported :
    ¬ ∀ (p : Plan) (net : Network) (src : Source) (fin : RunEnd MemoryStore) (report : RunReport),
      p.validate = .ok () → p.pools = [] → p.replaceRows = false →
      (net.epochOf p.finalSlot + 3) * net.slotsPerEpoch.val ≤ Word.max → src.Faithful net →
      p.Ends net src MemoryStore.store .none .empty fin → fin.result = .ok report →
      ∀ e ∈ p.epochs net, e ∉ report.abandonedEpochs →
        ∃ b, p.bundleAt net src .none e = some b ∧ ∀ v ∈ p.analysed b,
          ∃ row ∈ fin.contents.rows .validatorRewards, row.isOn e v = true := by
  intro hall
  have hanalysed := analysed_frail
  have hrows : ((briefPlan.run briefNetwork frailSource MemoryStore.store false .none
      .empty).contents.rows .validatorRewards).filter (·.isOn 1 0) = [] := by cbv
  obtain ⟨report, hok, habandoned⟩ := abandoned_frail
  obtain ⟨b, hb, hon⟩ := hall briefPlan briefNetwork frailSource _ report rfl rfl rfl (by decide)
    faithful_frailSource (ends_run _ _ _ _ _ _) hok 1 (by decide)
    (by rw [habandoned]; exact List.not_mem_nil)
  rw [hb] at hanalysed
  have hvalidators : briefPlan.analysed b = [0] := Option.some.inj hanalysed
  obtain ⟨row, hrow, htrue⟩ := hon 0 (by rw [hvalidators]; exact List.mem_singleton_self 0)
  have hmem := List.mem_filter.2 ⟨hrow, htrue⟩
  rw [hrows] at hmem
  cases hmem

end Plan

end EpochRewards
