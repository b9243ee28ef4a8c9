import EpochRewards.Proofs.Ceilings
import EpochRewards.Proofs.Incomes

/-!
Numerators: the rewards of flags are words before they are divided.

The products come close. A flag's share of the base reward is multiplied with the balance that has
earned it before it is divided by the active balance, which leaves a factor of two; and the votes
of a window are paid for once only, so that the numerators of all of them add up to no more than
every flag of every validator for two epochs is worth.
-/

namespace EpochRewards

open Pass

open EpochRewards.Bundle

variable {net : Network} {w : Window} {b c : Bundle} {m : Nat}

namespace Altair

/-! ### Votes included in the last epoch -/

lemma baseReward_fits (hnet : net.Usual) (hw : w.AtScale net) (hb : b.Scaled net w)
    (v : ValidatorIndex) :
    Calc.Errs (fun e => ¬ e.IsOverflow) (baseReward b v b.nextActiveBalance) ∧
      ∀ base, baseReward b v b.nextActiveBalance = .ok base →
        base ≤ w.next.effectiveBalanceOf v := by
  obtain ⟨p, hp, hper⟩ := hnet.baseRewardPerIncrement hb.next.1
  have hreward {x : Validator} (hv : w.next.validator? v = some x) :
      ∃ r, net.baseReward x.effectiveBalance p = .ok r ∧ r ≤ w.next.effectiveBalanceOf v := by
    have hbalance := hw.effectiveBalance_le (s := w.next) (by simp [Window.snapshots]) hv
    have heff : w.next.effectiveBalanceOf v = x.effectiveBalance := by
      simp [Snapshot.effectiveBalanceOf, hv]
    obtain ⟨r, hr, -, hle⟩ := hnet.baseReward hbalance hper
    rw [heff]
    exact ⟨r, hr, hle⟩
  unfold baseReward
  rw [hb.window, hb.network, hp]
  constructor
  · refine .bind (.orFail fun _ => id) fun x hx => .known_bind rfl ?_
    rw [Snapshot.registered, Calc.orFail_ok] at hx
    obtain ⟨r, hr, -⟩ := hreward hx
    rw [hr]
    exact .fault (.ok r)
  · intro base hbase
    simp only [Calc.bind_ok, Snapshot.registered, Calc.orFail_ok, Calc.fault_ok] at hbase
    obtain ⟨x, hx, _, ⟨⟩, hbase⟩ := hbase
    obtain ⟨r, hr, hle⟩ := hreward hx
    rw [hr] at hbase
    cases hbase
    exact hle

lemma baseRewardOf_le (hnet : net.Usual) (hw : w.AtScale net) (hb : b.Scaled net w)
    (v : ValidatorIndex) : baseRewardOf b v ≤ w.next.effectiveBalanceOf v := by
  obtain ⟨-, hle⟩ := baseReward_fits hnet hw hb v
  unfold baseRewardOf
  cases hbase : baseReward b v b.nextActiveBalance with
  | error e => exact Nat.zero_le _
  | ok base => exact hle base hbase

lemma numerator_allMerits_le (hnet : net.Usual) (hw : w.AtScale net) (hb : b.Scaled net w) :
    numerator b (allMerits b.window) ≤ 2 ^ 63 := by
  have hbase : registryBase b ≤ 2 ^ 56 := by
    rw [registryBase, hb.window]
    calc ((List.range w.next.validators.length).map (baseRewardOf b)).sum
        ≤ ((List.range w.next.validators.length).map w.next.effectiveBalanceOf).sum :=
          List.sum_le_sum fun v _ => baseRewardOf_le hnet hw hb v
      _ ≤ 2 ^ 56 :=
          sum_effectiveBalanceOf_le hw (s := w.next) (by simp [Window.snapshots]) List.nodup_range
  rw [numerator_allMerits]
  calc 2 * 54 * registryBase b ≤ 2 * 54 * 2 ^ 56 := Nat.mul_le_mul_left _ hbase
    _ ≤ 2 ^ 63 := by norm_num

lemma numerator_le (hnet : net.Usual) (hw : w.AtScale net) (hb : b.Scaled net w)
    {ms : List Merit} (hnodup : ms.Nodup) (hrecent : ∀ x ∈ ms, x.Recent w) :
    numerator b ms ≤ 2 ^ 63 := by
  rw [← hb.window] at hrecent
  exact (numerator_le_allMerits hnodup hrecent).trans (numerator_allMerits_le hnet hw hb)

lemma nodup_unpaid (paid ms : List Merit) : (unpaid paid ms).Nodup := by
  have hfirsts : ((firsts id ms).map id).Nodup := nodup_keys_firsts ms
  rw [List.map_id] at hfirsts
  exact hfirsts.filter _

lemma recent_of_votedEpoch? {epoch : Epoch} {duties : Duties} {source : Checkpoint}
    (h : votedEpoch? w epoch = some (duties, source)) :
    epoch = w.current.epoch ∨ epoch = w.next.epoch := by
  obtain ⟨t, ht, rfl, -⟩ := mem_of_votedEpoch? h
  rcases List.mem_pair.1 ht with rfl | rfl
  · exact .inl rfl
  · exact .inr rfl

lemma recent_of_mem_voteMerits {epoch : Epoch} {flags : Flags} {vs : List ValidatorIndex}
    (hepoch : epoch = w.current.epoch ∨ epoch = w.next.epoch) :
    ∀ x ∈ vs.flatMap (voteMerits epoch flags), x.Recent w := by
  intro x hx
  obtain ⟨v, -, hv⟩ := List.mem_flatMap.1 hx
  rw [Merit.Recent, (mem_voteMerits.1 hv).1]
  exact hepoch

lemma recent_of_mem_unpaid {paid ms : List Merit} (h : ∀ x ∈ ms, x.Recent w) :
    ∀ x ∈ unpaid paid ms, x.Recent w :=
  fun x hx => h x (mem_of_mem_firsts (List.mem_of_mem_filter hx))

/-- Votes for other epochs have no duties that they answer to. -/
lemma recent_of_mem_meritsOf (hb : b.Scaled net w) (x : Block × Attestation) :
    ∀ y ∈ meritsOf b x, y.Recent w := by
  cases hvoted : votedEpoch? b.window (b.network.epochOf x.2.data.slot) with
  | none => simp [meritsOf, dutiesOf, hvoted, Duties.voters, Duties.empty, Duties.members?]
  | some voted =>
    obtain ⟨duties, source⟩ := voted
    rw [hb.window] at hvoted
    exact recent_of_mem_voteMerits (recent_of_votedEpoch? hvoted)

/-- A vote is paid for those of its flags that are new. -/
lemma newFlags_unpaid {earned : Earned} {paid : List Merit} (h : Noted earned paid) (epoch : Epoch)
    (flags : Flags) (v : ValidatorIndex) : unpaid paid (voteMerits epoch flags v)
      = (newFlags (earned.get epoch v) flags).map (⟨epoch, v, ·⟩) := by
  have hself : firsts id (voteMerits epoch flags v) = voteMerits epoch flags v := by
    refine firsts_eq_self ?_
    rw [List.map_id]
    exact nodup_voteMerits epoch flags v
  rw [newFlags_merits h, unpaid, hself]

lemma totalOf_payouts_le (b : Bundle) (xs : List (Block × Attestation)) :
    totalOf ((payouts b [] xs).map (Payout.payment b))
      ≤ numerator b (unpaid [] (xs.flatMap (meritsOf b))) := by
  rw [← merits_payouts]
  exact (totalOf_payouts_le_div b [] xs).trans (Nat.div_le_self _ _)

/-- The flags that a vote adds to a numerator are among merits that are paid for once. -/
lemma addFlagWeights_fits (hnet : net.Usual) (hw : w.AtScale net) (hb : b.Scaled net w)
    {ps : List Payment} (hc : Pays b ps c) {epoch : Epoch} {v : ValidatorIndex} {us : List Merit}
    {fs : List Flag} (hnodup : (us ++ fs.map (Merit.mk epoch v)).Nodup)
    (hrecent : ∀ x ∈ us ++ fs.map (Merit.mk epoch v), x.Recent w) :
    Calc.Errs (fun e => ¬ e.IsOverflow) (fs.foldlM (addFlagWeight c v) (numerator b us)) := by
  have hbase : baseReward c v c.nextActiveBalance = baseReward b v b.nextActiveBalance :=
    baseReward_of_pays hc v
  obtain ⟨herrs, -⟩ := baseReward_fits hnet hw hb v
  refine (Calc.Errs.foldlM (J := fun done n => n = numerator b (us ++ done.map (Merit.mk epoch v)))
    (by simp) fun done f hf n hn => ?_).1
  have hsum : n + baseRewardOf b v * f.weight
      = numerator b (us ++ (done ++ [f]).map (Merit.mk epoch v)) := by
    have hworth : numerator b [⟨epoch, v, f⟩] = baseRewardOf b v * f.weight := by
      simp [numerator, Merit.worth]
    rw [hn, List.map_append, ← List.append_assoc, numerator_append b (us ++ _), List.map_singleton,
      hworth]
  have hsub : (us ++ (done ++ [f]).map (Merit.mk epoch v)).Sublist
      (us ++ fs.map (Merit.mk epoch v)) :=
    (hf.sublist.map _).append_left us
  have hle := numerator_le hnet hw hb (hnodup.sublist hsub) fun x hx => hrecent x (hsub.subset hx)
  have hword : n + baseRewardOf b v * f.weight < Word.bound := by
    rw [hsum]
    exact Nat.lt_of_le_of_lt hle (by norm_num [Word.bound])
  have hof {base : Gwei} (hok : baseReward c v c.nextActiveBalance = .ok base) :
      baseRewardOf b v = base := by
    rw [baseRewardOf, ← hbase, hok]
    rfl
  unfold addFlagWeight
  constructor
  · rw [hbase]
    refine herrs.bind fun base hok => .bind (.fault ?_) fun product hproduct => .fault ?_
    · have hb : baseRewardOf b v = base := hof (hbase.trans hok)
      rw [← hb]
      exact Word.errs_mul_of_lt (Nat.lt_of_le_of_lt (Nat.le_add_left _ n) hword)
    · have hb : baseRewardOf b v = base := hof (hbase.trans hok)
      rw [Calc.fault_ok, Word.mul_ok] at hproduct
      rw [← hproduct.2, ← hb]
      exact Word.errs_add_of_lt hword
  · intro k hk
    simp only [Calc.bind_ok, Calc.fault_ok, Word.mul_ok, Word.add_ok] at hk
    obtain ⟨base, hok, _, ⟨-, rfl⟩, -, rfl⟩ := hk
    rw [← hof hok, hsum]

lemma includeVotes_fits (hnet : net.Usual) (hw : w.AtScale net) (hb : b.Scaled net w)
    {paid : List Merit} {ps : List Payment} {earned : Earned} (hn : Noted earned paid)
    (hc : Pays b ps c) (block : Block) {epoch : Epoch}
    (hepoch : epoch = w.current.epoch ∨ epoch = w.next.epoch) (flags : Flags)
    (vs : List ValidatorIndex) :
    Fits (fun r d => vs.foldlM (includeVote block epoch flags) (earned, 0) c = .ok r d)
      (vs.foldlM (includeVote block epoch flags) (earned, 0) c) := by
  refine Meets.foldlM_run fun done v _ acc d hd => ?_
  obtain ⟨earned', n⟩ := acc
  obtain ⟨hn', hd', hnum, -⟩ := includeVotes_ok hn hc hd
  rw [Nat.zero_add] at hnum
  subst hnum
  -- what this vote adds is among merits that are all different
  have hall : unpaid paid ((done ++ [v]).flatMap (voteMerits epoch flags))
      = unpaid paid (done.flatMap (voteMerits epoch flags))
        ++ (newFlags (earned'.get epoch v) flags).map (⟨epoch, v, ·⟩) := by
    rw [List.flatMap_append, List.flatMap_singleton, unpaid_append, newFlags_unpaid hn']
  have hnodup := nodup_unpaid paid ((done ++ [v]).flatMap (voteMerits epoch flags))
  have hrecent : ∀ x ∈ unpaid paid ((done ++ [v]).flatMap (voteMerits epoch flags)), x.Recent w :=
    recent_of_mem_unpaid (recent_of_mem_voteMerits hepoch)
  rw [hall] at hnodup hrecent
  refine .get_bind (.lift_bind (addFlagWeights_fits hnet hw hb hd' hnodup hrecent) fun n _ => ?_)
  refine (countVote_fits d _).bind fun _ e _ _ => ?_
  split
  · exact (countNewVote_fits e _).bind fun _ _ _ _ => .pure trivial
  · exact .pure trivial

/-! ### Aggregates and blocks -/

/-- The votes of the aggregates `xs` are noted as earned and have been paid for. -/
def PaidFor (b : Bundle) (xs : List (Block × Attestation)) (earned : Earned) (c : Bundle) : Prop :=
  Noted earned (xs.flatMap (meritsOf b)) ∧ Pays b ((payouts b [] xs).map (Payout.payment b)) c

lemma paidFor_nil (b : Bundle) : PaidFor b [] .empty b := ⟨noted_empty, pays_nil b⟩

lemma PaidFor.append {f : Earned → Pass Earned} {xs ys : List (Block × Attestation)}
    {earned earned' : Earned} {d : Bundle} (hc : PaidFor b xs earned c) (hf : PaysFor b f ys)
    (h : f earned c = .ok earned' d) : PaidFor b (xs ++ ys) earned' d := by
  obtain ⟨-, -, hnoted, hpays⟩ := hf hc.1 hc.2 h
  rw [PaidFor, payouts_append, List.map_append, List.flatMap_append, List.nil_append]
  exact ⟨hnoted, hpays⟩

/-- A proposer gets a small part of what the votes are worth. -/
lemma totalOf_payouts_le_income (hnet : net.Usual) (hw : w.AtScale net) (hb : b.Scaled net w)
    (xs : List (Block × Attestation)) :
    totalOf ((payouts b [] xs).map (Payout.payment b)) ≤ 2 ^ 59 := by
  have hrecent : ∀ x ∈ xs.flatMap (meritsOf b), x.Recent w := by
    intro x hx
    obtain ⟨y, -, hy⟩ := List.mem_flatMap.1 hx
    exact recent_of_mem_meritsOf hb y x hy
  have hworth : numerator b ((payouts b [] xs).flatMap (·.merits)) ≤ 2 ^ 63 := by
    rw [merits_payouts]
    exact numerator_le hnet hw hb (nodup_unpaid _ _) (recent_of_mem_unpaid hrecent)
  calc totalOf ((payouts b [] xs).map (Payout.payment b))
      ≤ numerator b ((payouts b [] xs).flatMap (·.merits)) / proposerDenominator :=
        totalOf_payouts_le_div b [] xs
    _ ≤ 2 ^ 63 / proposerDenominator := Nat.div_le_div_right hworth
    _ ≤ 2 ^ 59 := by decide

/-- What has been paid and what is paid next are parts of one sum. -/
lemma totalOf_add_numerator_le (hnet : net.Usual) (hw : w.AtScale net) (hb : b.Scaled net w)
    (xs : List (Block × Attestation)) {ms : List Merit} (hms : ∀ x ∈ ms, x.Recent w) :
    totalOf ((payouts b [] xs).map (Payout.payment b))
      + numerator b (unpaid (xs.flatMap (meritsOf b)) ms) ≤ 2 ^ 63 := by
  have hrecent : ∀ x ∈ xs.flatMap (meritsOf b) ++ ms, x.Recent w := by
    intro x hx
    rcases List.mem_append.1 hx with h | h
    · obtain ⟨y, -, hy⟩ := List.mem_flatMap.1 h
      exact recent_of_mem_meritsOf hb y x hy
    · exact hms x h
  calc totalOf ((payouts b [] xs).map (Payout.payment b))
        + numerator b (unpaid (xs.flatMap (meritsOf b)) ms)
      ≤ numerator b (unpaid [] (xs.flatMap (meritsOf b)))
        + numerator b (unpaid (xs.flatMap (meritsOf b)) ms) :=
        Nat.add_le_add_right (totalOf_payouts_le b xs) _
    _ = numerator b (unpaid [] (xs.flatMap (meritsOf b) ++ ms)) := by
        rw [unpaid_append, numerator_append, List.nil_append]
    _ ≤ 2 ^ 63 := numerator_le hnet hw hb (nodup_unpaid _ _) (recent_of_mem_unpaid hrecent)

lemma includeAttestation_fits (hnet : net.Usual) (hw : w.AtScale net)
    (hb : b.Attested net w (2 ^ 61)) {xs : List (Block × Attestation)} {earned : Earned}
    (hc : PaidFor b xs earned c) (block : Block) (a : Attestation) :
    Fits (fun earned d => ∃ ys, PaidFor b ys earned d) (includeAttestation block earned a c) := by
  suffices hfits : Fits (fun _ _ => True) (includeAttestation block earned a c) from
    hfits.mono fun _ d hd _ => ⟨_, hc.append (includeAttestation_paysFor block a) hd⟩
  have hnetwork : c.network = net := by rw [hc.2.frame, ← hb.scaled.network]
  have hwindow : c.window = w := by rw [hc.2.frame, ← hb.scaled.window]
  have hslot : w.next.slot < 2 ^ 62 := hw.slots w.next (by simp [Window.snapshots])
  refine .get_bind ?_
  dsimp only
  rw [hwindow, hnetwork]
  cases hvoted : votedEpoch? w (net.epochOf a.data.slot) with
  | none => exact .pure trivial
  | some voted =>
    obtain ⟨duties, source⟩ := voted
    have hrecent := recent_of_votedEpoch? hvoted
    dsimp only
    split
    · refine .lift_bind (blockRootAt_fits hnet hslot _) fun root _ =>
        .lift_bind (blockRootAt_fits hnet hslot _) fun head _ =>
          .lift_bind (attesters_fits _ _) fun members _ =>
            (includeVotes_fits hnet hw hb.scaled hc.1 hc.2 block hrecent _ members).bind
              fun r d hd _ => ?_
      obtain ⟨earned', n⟩ := r
      obtain ⟨-, hpays, hnum, -⟩ := includeVotes_ok hc.1 hc.2 hd
      have hsum : totalOf ((payouts b [] xs).map (Payout.payment b)) + n ≤ 2 ^ 63 := by
        rw [hnum, Nat.zero_add]
        exact totalOf_add_numerator_le hnet hw hb.scaled xs (recent_of_mem_voteMerits hrecent)
      have harith (t n : Nat) (h : t + n ≤ 2 ^ 63) :
          2 ^ 61 + t + n / proposerDenominator < Word.bound := by
        have hdiv := Nat.div_le_self n proposerDenominator
        unfold Word.bound
        omega
      refine (payProposer_fits (hpays.purse hb.purse) (harith _ _ hsum) block).bind fun _ _ _ _ =>
        .pure trivial
    · exact .pure trivial

lemma processIncludedVotes_fits (hnet : net.Usual) (hw : w.AtScale net)
    (hb : b.Attested net w (2 ^ 61)) :
    Fits (fun _ c => c.Attested net w (5 * 2 ^ 59)) (processIncludedVotes b) := by
  refine .get_bind ((Meets.foldlM_mem (J := fun earned c => ∃ xs, PaidFor b xs earned c)
    ⟨[], paidFor_nil b⟩ fun block _ earned c hc => ?_).bind fun _ c _ hc => .pure ?_)
  · exact .foldlM_mem hc fun a _ earned d ⟨xs, hd⟩ =>
      includeAttestation_fits hnet hw hb hd block a
  · obtain ⟨xs, -, hpays⟩ := hc
    refine (hb.pays hpays).mono ?_
    calc 2 ^ 61 + totalOf ((payouts b [] xs).map (Payout.payment b))
        ≤ 2 ^ 61 + 2 ^ 59 :=
          Nat.add_le_add_left (totalOf_payouts_le_income hnet hw hb.scaled xs) _
      _ = 5 * 2 ^ 59 := by norm_num

/-! ### Maxima -/

/-- The factors of a flag's reward at their largest, and their quotient. -/
lemma flagFactors_le (flag : Flag) {base attesting active : Nat} (hbase : base ≤ 2048 * 2023907)
    (hattesting : attesting ≤ 72057594) (hactive : 1 ≤ active ∧ active ≤ 72057594) :
    flag.weight * base < Word.bound ∧ flag.weight * base * attesting < Word.bound ∧
      active * weightDenominator < Word.bound ∧
      flag.weight * base * attesting / (active * weightDenominator) ≤ 2 ^ 57 := by
  have hweighted : flag.weight * base ≤ 26 * (2048 * 2023907) :=
    Nat.mul_le_mul (by cases flag <;> decide) hbase
  -- within a factor of three of the largest word
  have hnumerator : flag.weight * base * attesting ≤ 26 * (2048 * 2023907) * 72057594 :=
    Nat.mul_le_mul hweighted hattesting
  have hdenominator : active * weightDenominator ≤ 72057594 * 64 :=
    Nat.mul_le_mul_right _ hactive.2
  refine ⟨Nat.lt_of_le_of_lt hweighted (by norm_num [Word.bound]),
    Nat.lt_of_le_of_lt hnumerator (by norm_num [Word.bound]),
    Nat.lt_of_le_of_lt hdenominator (by norm_num [Word.bound]), ?_⟩
  calc flag.weight * base * attesting / (active * weightDenominator)
      ≤ 26 * (2048 * 2023907) * 72057594 / (1 * weightDenominator) :=
        Nat.div_le_div hnumerator (Nat.mul_le_mul_right _ hactive.1) (by decide)
    _ ≤ 2 ^ 57 := by norm_num [weightDenominator]

lemma flagReward_fits (hnet : net.Usual) (hw : w.AtScale net) (hb : b.Backed net w)
    (v : ValidatorIndex) {base total k : Nat} (hbase : base ≤ 2048 * 2023907)
    (htotal : total ≤ k * 2 ^ 57) (hk : k ≤ 2) (flag : Flag) :
    Calc.Errs (fun e => ¬ e.IsOverflow) (flagReward b v base total flag) ∧
      ∀ r, flagReward b v base total flag = .ok r → r ≤ (k + 1) * 2 ^ 57 := by
  have hattesting := hnet.increments_le (hb.attesting flag)
  have hactive := hnet.increments_le hb.scaled.current.2
  have hpositive := hnet.increments_pos hb.scaled.current.1
  rw [← hb.scaled.network] at hattesting hactive hpositive
  obtain ⟨hweighted, hnumerator, hdenominator, hquotient⟩ :=
    flagFactors_le flag hbase hattesting ⟨hpositive, hactive⟩
  have hroom (q : Nat) (hq : q ≤ 2 ^ 57) :
      total + q < Word.bound ∧ total + q ≤ (k + 1) * 2 ^ 57 := by
    unfold Word.bound
    omega
  unfold flagReward
  constructor
  · refine .bind (isFlagPossible_fits hnet hw hb.scaled v flag) fun possible _ => ?_
    split
    · refine .known_bind (Word.mul_eq hweighted) (.known_bind (Word.mul_eq hnumerator)
        (.known_bind (Word.mul_eq hdenominator)
          (.bind (.fault Word.no_overflow_div) fun _ h => ?_)))
      rw [Calc.fault_ok, Word.div_ok] at h
      rw [← h.2]
      exact .fault (Word.errs_add_of_lt (hroom _ hquotient).1)
    · exact .ok _
  · intro r hr
    simp only [Calc.bind_ok] at hr
    obtain ⟨possible, -, hr⟩ := hr
    split at hr
    · simp only [Calc.bind_ok, Calc.fault_ok, Word.mul_ok, Word.div_ok, Word.add_ok] at hr
      obtain ⟨_, ⟨-, rfl⟩, _, ⟨-, rfl⟩, _, ⟨-, rfl⟩, _, ⟨-, rfl⟩, -, rfl⟩ := hr
      exact (hroom _ hquotient).2
    · cases hr
      exact Nat.le_trans htotal (Nat.mul_le_mul_right _ (Nat.le_succ k))

lemma flagRewards_fits (hnet : net.Usual) (hw : w.AtScale net) (hb : b.Backed net w)
    (v : ValidatorIndex) {base : Nat} (hbase : base ≤ 2048 * 2023907) :
    Calc.Errs (fun e => ¬ e.IsOverflow) (Flag.all.foldlM (flagReward b v base) 0) ∧
      ∀ r, Flag.all.foldlM (flagReward b v base) 0 = .ok r → r ≤ 3 * 2 ^ 57 :=
  Calc.Errs.foldlM (J := fun done total => total ≤ done.length * 2 ^ 57) (Nat.zero_le _)
    fun done flag hdone total htotal => by
      have hlen : done.length + 1 ≤ 3 := length_le_of_initial hdone
      rw [List.length_append, List.length_singleton]
      exact flagReward_fits hnet hw hb v hbase htotal (Nat.le_of_succ_le_succ hlen) flag

lemma processMaxRewards_fits (hnet : net.Usual) (hw : w.AtScale net) (hb : b.Attested net w m) :
    Fits (fun _ c => c = { b with tallies := c.tallies } ∧
      ∀ (v : ValidatorIndex) (t), c.tallies[v]? = some t → t.maxAttesterReward ≤ 2 ^ 59)
      (processMaxRewards b) := by
  obtain ⟨p, hp, hper⟩ := hnet.baseRewardPerIncrement hb.scaled.current.1
  rw [← hb.scaled.network] at hp
  refine .get_bind (.known_bind hp (forM_rewards_fits hb fun v seen c hv hc hnew => ?_))
  have hbacked := hb.toBacked.frame hc
  refine .get_bind (.lift_bind (.orFail fun _ => id) fun t _ =>
    .lift_bind (.orFail fun _ => id) fun validator hvalidator => ?_)
  rw [Snapshot.registered, hbacked.scaled.window, Calc.orFail_ok] at hvalidator
  have hbalance := hw.effectiveBalance_le (s := w.current) (by simp [Window.snapshots]) hvalidator
  obtain ⟨base, hbase, hle, -⟩ := hnet.baseReward hbalance hper
  rw [← hbacked.scaled.network] at hbase
  obtain ⟨herrs, hsum⟩ := flagRewards_fits hnet hw hbacked v hle
  exact .known_bind hbase (.lift_bind herrs fun r hr => addAttesterReward_fits hnew hv
    (Nat.le_trans (hsum r hr) (by norm_num)) (by norm_num [Word.bound]))

lemma prepare_fits (hnet : net.Usual) (hw : w.AtScale net) (hb : b.Ready net w 0)
    (hzero : ∀ v, b.maxSlashingRewards.amount v = 0) :
    Fits (fun _ c => c.Contained net w) (prepare b) := by
  refine .get_bind ?_
  split
  · refine (processSlashings_fits share_fits hnet hw hb.scaled hzero).bind fun _ c _ hc => ?_
    refine (processSyncAggregates_fits hnet hw (hb.slash hc)).bind fun _ d _ hready => ?_
    refine (indexOpportunities_fits hnet hw hready.scaled).bind fun _ e _ he => ?_
    have hready := hready.index he
    refine (processAttestations_fits hnet hw hready.scaled hready.unvoted hready.unattested).bind
      fun cs f hf _ => ?_
    refine (processIncludedVotes_fits hnet hw (hready.attested hw hf)).bind fun _ g _ hg => ?_
    refine (processMaxRewards_fits hnet hw hg).bind fun _ h _ hh => ?_
    have hcontained := hg.contained (Nat.le_refl _) hh.1 hh.2
    have hsync : h.maxSyncRewards = g.maxSyncRewards := by rw [hh.1]
    exact (processSyncCommittee_fits hnet hw hcontained.scaled (hsync ▸ hg.unseated)).mono
      fun _ k _ hk => hcontained.seat hk.1 hk.2
  · exact .pure hb.contained

end Altair

end EpochRewards
