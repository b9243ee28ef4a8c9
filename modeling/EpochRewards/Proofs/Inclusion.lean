import EpochRewards.Proofs.FirstOccurrence
import EpochRewards.Proofs.Pass
import EpochRewards.Reward.Inclusion

/-!
First inclusions.

The votes for the first epoch of a window, in the order in which blocks include them, are a
list. What the pass over them leaves behind is described by that list alone: the first vote of
a validator settles its delay, its flags and its credit, and every vote is counted.
-/

namespace EpochRewards

/-- A vote of a validator in a block. -/
structure Inclusion where
  block : Block
  vote : VoteData
  validator : ValidatorIndex

def Inclusion.delay (i : Inclusion) : Nat := i.block.slot - i.vote.slot

/-- The members behind the set bits of an aggregate, in the order of the bits. -/
def Duties.voters (d : Duties) (a : Attestation) : List ValidatorIndex :=
  a.bits.ones.filterMap fun i => ((d.members? a.data.slot a.data.index).getD [])[i]?

def Snapshot.effectiveBalanceOf (s : Snapshot) (v : ValidatorIndex) : Gwei :=
  ((s.validator? v).map (·.effectiveBalance)).getD 0

/-- A root that is kept; zero stands for one that is not. -/
def keptRoot (x : Calc Root) : Root := x.toOption.getD .zero

lemma attesters_ok {d : Duties} {a : Attestation} {vs : List ValidatorIndex}
    (h : d.attesters a = .ok vs) : vs = d.voters a := by
  simp only [Duties.attesters, Calc.bind_ok, Calc.orFail_ok, Calc.mapM_ok] at h
  obtain ⟨members, hm, h⟩ := h
  rw [Duties.voters, hm, Option.getD_some]
  generalize a.bits.ones = ones at h
  induction h with
  | nil => rfl
  | cons hv _ ih => rw [List.filterMap_cons_some hv, ih]

lemma keptRoot_ok {x : Calc Root} {r : Root} (h : x = .ok r) : keptRoot x = r := by
  rw [h]
  rfl

lemma map_filter_eq_flatMap {α β : Type} (p : α → Bool) (f : α → β) (as : List α) :
    (as.filter p).map f = as.flatMap fun a => ([a].filter p).map f := by
  induction as with
  | nil => rfl
  | cons a as ih =>
    rw [List.flatMap_cons, ← ih, ← List.map_append, ← List.filter_append, List.singleton_append]

namespace Bundle

lemma voteFlags_congr {b c : Bundle} (hnet : c.network = b.network) (hphase : c.phase = b.phase) :
    c.voteFlags = b.voteFlags := by
  unfold voteFlags delayLimit
  rw [hnet, hphase]

/-! ### The votes of a window -/

/-- Whether a block's aggregate is for the first epoch and older than the block. -/
def counts (b : Bundle) (block : Block) (a : Attestation) : Bool :=
  b.network.epochOf a.data.slot = b.window.prev.epoch ∧ a.data.slot < block.slot

/-- The aggregates that count, by block and by their place in it. -/
def aggregates (b : Bundle) : List (Block × Attestation) :=
  (votingBlocks b.window).flatMap fun block =>
    (block.attestations.filter (b.counts block)).map (block, ·)

def votesOf (b : Bundle) (x : Block × Attestation) : List Inclusion :=
  (b.window.prev.duties.voters x.2).map (⟨x.1, x.2.data, ·⟩)

/-- The votes that count, by block, aggregate and bit. -/
def inclusions (b : Bundle) : List Inclusion := b.aggregates.flatMap b.votesOf

def canonical (b : Bundle) : Canonical :=
  ⟨b.window.prev.currentJustified,
    ⟨b.window.prev.epoch, keptRoot (b.window.current.blockRootOf b.network b.window.prev.epoch)⟩⟩

def flagsOf (b : Bundle) (i : Inclusion) : Flags :=
  b.voteFlags i.vote i.delay b.canonical (keptRoot (b.window.current.blockRootAt b.network i.vote.slot))

def creditOf (b : Bundle) (i : Inclusion) : Credit :=
  ⟨i.validator, i.block.slot, i.block.proposer, i.delay, b.flagsOf i⟩

/-- The roots and the members that an aggregate names are all known. -/
structure Resolved (b : Bundle) (x : Block × Attestation) : Prop where
  head : ∃ r, b.window.current.blockRootAt b.network x.2.data.slot = .ok r
  members : b.window.prev.duties.attesters x.2 = .ok (b.window.prev.duties.voters x.2)

/-! ### What a list of votes leaves behind -/

/-- The tally of a validator after votes were included. -/
def settle (b : Bundle) (is : List Inclusion) (v : ValidatorIndex) (t : ValidatorTally) :
    ValidatorTally :=
  match is.find? (·.validator = v) with
  | some i => { t with inclusionDelay := some i.delay, flags := b.flagsOf i }
  | none => t

def recount (is : List Inclusion) (slot : Slot) (t : BlockTally) : BlockTally :=
  { t with
    votesIncluded := t.votesIncluded + is.countP (·.block.slot = slot)
    newVotesIncluded :=
      t.newVotesIncluded + (firsts Inclusion.validator is).countP (·.block.slot = slot) }

/-- The credits for the first votes of their validators. -/
def credited (b : Bundle) (is : List Inclusion) : List Credit :=
  (firsts Inclusion.validator is).map b.creditOf

/-- The balance behind the votes that were the first of their validators and earned a flag. -/
def earnedBalance (b : Bundle) (is : List Inclusion) (f : Flag) : Gwei :=
  (((firsts Inclusion.validator is).filter fun i => (b.flagsOf i).has f).map
    fun i => b.window.current.effectiveBalanceOf i.validator).sum

/-- The bundle `b` after `n` aggregates with the votes `is` in all were walked. -/
structure Walked (b : Bundle) (n : Nat) (is : List Inclusion) (c : Bundle) : Prop where
  frame : c = { b with
    tallies := c.tallies
    attestingBalance := c.attestingBalance
    attestationCount := b.attestationCount + n
    blockTallies := c.blockTallies }
  tally : ∀ v, c.tallies[v]? = (b.tallies[v]?).map (b.settle is v)
  block : ∀ s, c.blockTallies.get? s = (b.blockTallies.get? s).map (recount is s)
  balance : ∀ f, c.attestingBalance.get f = b.attestingBalance.get f + b.earnedBalance is f
  listed : ∀ i ∈ is, (b.blockTallies.get? i.block.slot).isSome
  registered : ∀ i ∈ is, (b.window.current.validator? i.validator).isSome

lemma walked_start (b : Bundle) : Walked b 0 [] b where
  frame := rfl
  tally v := by
    have : b.settle [] v = id := rfl
    rw [this, Option.map_id, id]
  block s := by
    have : recount [] s = id := rfl
    rw [this, Option.map_id, id]
  balance f := by simp [earnedBalance, firsts]
  listed i hi := by simp at hi
  registered i hi := by simp at hi

/-! ### One vote -/

lemma get_set_totals (t : FlagTotals) (n : Gwei) (f g : Flag) :
    (t.set n f).get g = if g = f then n else t.get g := by
  cases f <;> cases g <;> rfl

lemma addAttesting_ok {n : Gwei} {f : Flag} {b b' : Bundle} {u : Unit}
    (h : addAttesting n f b = .ok u b') :
    b' = { b with attestingBalance := b.attestingBalance.set (b.attestingBalance.get f + n) f } := by
  simp only [addAttesting, Pass.bind_ok, Pass.get_ok, Pass.fault_ok, Word.add_ok,
    Pass.modify_ok] at h
  obtain ⟨_, _, ⟨rfl, rfl⟩, _, _, ⟨⟨-, rfl⟩, rfl⟩, rfl⟩ := h
  rfl

/-- Balances are added for the flags listed, each as often as it is listed. -/
lemma addAttesting_all_ok {n : Gwei} {fs : List Flag} {b b' : Bundle} {u : Unit}
    (h : fs.forM (addAttesting n) b = .ok u b') :
    b' = { b with attestingBalance := b'.attestingBalance } ∧
      ∀ f, b'.attestingBalance.get f = b.attestingBalance.get f + fs.count f * n := by
  induction fs generalizing b with
  | nil =>
    rw [Pass.forM_nil_ok] at h
    subst h
    simp
  | cons f fs ih =>
    rw [Pass.forM_cons_ok] at h
    obtain ⟨c, hc, h⟩ := h
    obtain ⟨hb, hf⟩ := ih h
    have hc := addAttesting_ok hc
    refine ⟨by rw [hb, hc], fun g => ?_⟩
    rw [hf g, hc, get_set_totals, List.count_cons]
    by_cases hg : g = f
    · subst hg
      simp only [if_true, beq_self_eq_true]
      rw [Nat.succ_mul, Nat.add_assoc, Nat.add_comm n]
    · simp [hg, Ne.symm hg]

lemma count_filter_all (f : Flag) (flags : Flags) :
    (Flag.all.filter flags.has).count f = (flags.has f).toNat := by
  obtain ⟨s, t, h⟩ := flags
  cases s <;> cases t <;> cases h <;> cases f <;> rfl

/-- What a vote changes: the first of its validator is credited, every one is counted. -/
inductive Vote (block : Block) (delay : Nat) (flags : Flags) (v : ValidatorIndex) (c : Bundle) :
    Option Credit → Bundle → Prop
  | repeated {t : ValidatorTally} {k : BlockTally} (tally : c.tallies[v]? = some t)
      (registered : (c.window.current.validator? v).isSome) (seen : t.inclusionDelay.isSome)
      (listed : c.blockTallies.get? block.slot = some k) :
      Vote block delay flags v c none { c with
        blockTallies :=
          c.blockTallies.insert block.slot { k with votesIncluded := k.votesIncluded + 1 } }
  | first {t : ValidatorTally} {k : BlockTally} {l : Ledger BlockTally} {totals : FlagTotals}
      (tally : c.tallies[v]? = some t) (registered : (c.window.current.validator? v).isSome)
      (unseen : t.inclusionDelay = none) (listed : c.blockTallies.get? block.slot = some k)
      (counted : ∀ s, l.get? s = if s = block.slot then
          some ⟨k.manualReward, k.votesIncluded + 1, k.newVotesIncluded + 1⟩
        else c.blockTallies.get? s)
      (balance : ∀ f, totals.get f = c.attestingBalance.get f +
        (flags.has f).toNat * c.window.current.effectiveBalanceOf v) :
      Vote block delay flags v c (some ⟨v, block.slot, block.proposer, delay, flags⟩) { c with
        tallies := c.tallies.set v ⟨t.maxAttesterReward, some delay, flags⟩
        blockTallies := l
        attestingBalance := totals }

lemma creditVote_ok {block : Block} {delay : Nat} {flags : Flags} {v : ValidatorIndex}
    {c c' : Bundle} {r : Option Credit} (h : creditVote block delay flags v c = .ok r c') :
    Vote block delay flags v c r c' := by
  simp only [creditVote, Pass.bind_ok, Pass.get_ok, Pass.lift_ok, tally, Snapshot.registered,
    Calc.orFail_ok] at h
  obtain ⟨_, _, ⟨rfl, rfl⟩, t, _, ⟨ht, rfl⟩, x, _, ⟨hx, rfl⟩, _, d, hd, h⟩ := h
  obtain ⟨k, hk, rfl⟩ := countVote_ok hd
  have hr : (c.window.current.validator? v).isSome := Option.isSome_of_eq_some hx
  split at h
  · next hs =>
    rw [Pass.pure_ok] at h
    obtain ⟨rfl, rfl⟩ := h
    exact .repeated ht hr hs hk
  · next hs =>
    simp only [Pass.bind_ok, setTally_ok, Pass.pure_ok] at h
    obtain ⟨_, e, he, _, _, ⟨-, rfl⟩, _, g, hg, rfl, rfl⟩ := h
    obtain ⟨l, hl, rfl⟩ := countNewVote_ok he
    obtain ⟨hb, hf⟩ := addAttesting_all_ok hg
    rw [hb]
    refine .first ht hr (by simpa using hs) hk ?_ ?_
    · intro s
      simp only [Ledger.get?_insert, if_true] at hl ⊢
      rw [← Option.some.inj hl]
      split
      · rfl
      · rfl
    · intro f
      have hv : c.window.current.effectiveBalanceOf v = x.effectiveBalance := by
        simp [Snapshot.effectiveBalanceOf, hx]
      rw [hf f, count_filter_all, hv]

variable {b c c' : Bundle} {n : Nat} {is : List Inclusion} {i : Inclusion} {r : Option Credit}

/-- No vote has been included yet. -/
def Unvoted (b : Bundle) : Prop := ∀ t ∈ b.tallies, t.inclusionDelay = none

lemma settle_append (v : ValidatorIndex) (t : ValidatorTally) :
    b.settle (is ++ [i]) v t =
      if i.validator = v ∧ v ∉ is.map Inclusion.validator then
        { t with inclusionDelay := some i.delay, flags := b.flagsOf i }
      else b.settle is v t := by
  have hm : v ∈ is.map Inclusion.validator ↔ _ := mem_keys_iff_find
  rw [settle, settle, find_append_singleton]
  simp only [hm]
  cases is.find? (·.validator = v) with
  | some j => simp
  | none => by_cases hv : i.validator = v <;> simp [hv]

lemma isSome_settle {t : ValidatorTally} {v : ValidatorIndex} (ht : t.inclusionDelay = none) :
    (b.settle is v t).inclusionDelay.isSome ↔ v ∈ is.map Inclusion.validator := by
  rw [mem_keys_iff_find, settle]
  cases is.find? (·.validator = v) with
  | some j => simp
  | none => simp [ht]

lemma recount_append (s : Slot) (t : BlockTally) :
    recount (is ++ [i]) s t = ⟨t.manualReward,
      (recount is s t).votesIncluded + (decide (i.block.slot = s)).toNat,
      (recount is s t).newVotesIncluded +
        (decide (i.block.slot = s ∧ i.validator ∉ is.map Inclusion.validator)).toNat⟩ := by
  rw [recount, recount, firsts_append_singleton]
  by_cases hs : i.block.slot = s <;> by_cases hv : i.validator ∈ is.map Inclusion.validator
  · simp [hs, hv, Nat.add_assoc]
  · simp [hs, hv, Nat.add_assoc]
  · simp [hs, hv]
  · simp [hs, hv]

lemma earnedBalance_append (f : Flag) :
    b.earnedBalance (is ++ [i]) f = b.earnedBalance is f +
      if i.validator ∈ is.map Inclusion.validator then 0
      else ((b.flagsOf i).has f).toNat * b.window.current.effectiveBalanceOf i.validator := by
  rw [earnedBalance, earnedBalance, firsts_append_singleton]
  split
  · simp
  · cases hf : (b.flagsOf i).has f <;> simp [hf]

/-- A vote of a validator that has been credited is only counted. -/
lemma walked_repeated {k : BlockTally} (h : Walked b n is c)
    (hm : i.validator ∈ is.map Inclusion.validator)
    (hr : (c.window.current.validator? i.validator).isSome)
    (hk : c.blockTallies.get? i.block.slot = some k) :
    Walked b n (is ++ [i]) { c with
      blockTallies :=
        c.blockTallies.insert i.block.slot { k with votesIncluded := k.votesIncluded + 1 } } := by
  have hw : c.window = b.window := by rw [h.frame]
  have hk₀ := hk
  rw [h.block, Option.map_eq_some_iff] at hk₀
  obtain ⟨k₀, hk₀, rfl⟩ := hk₀
  refine ⟨by rw [h.frame], fun v => ?_, fun s => ?_, fun f => ?_, fun j hj => ?_,
    fun j hj => ?_⟩
  · have : b.settle (is ++ [i]) v = b.settle is v := by
      funext t
      rw [settle_append, if_neg]
      rintro ⟨rfl, hn⟩
      exact hn hm
    rw [this, ← h.tally v]
  · rw [Ledger.get?_insert]
    by_cases hs : s = i.block.slot
    · subst hs
      simp [hk₀, recount_append, hm]
      rfl
    · rw [if_neg hs, h.block]
      congr 1
      funext t
      simp [recount_append, Ne.symm hs]
      rfl
  · rw [earnedBalance_append, if_pos hm]
    exact h.balance f
  · rcases List.mem_append.1 hj with hj | hj
    · exact h.listed j hj
    · rw [List.mem_singleton.1 hj, hk₀]
      rfl
  · rcases List.mem_append.1 hj with hj | hj
    · exact h.registered j hj
    · rw [List.mem_singleton.1 hj, ← hw]
      exact hr

/-- The first vote of a validator settles its tally. -/
lemma walked_first {k : BlockTally} {l : Ledger BlockTally} {totals : FlagTotals}
    {t : ValidatorTally} (h : Walked b n is c) (hm : i.validator ∉ is.map Inclusion.validator)
    (ht : c.tallies[i.validator]? = some t)
    (hr : (c.window.current.validator? i.validator).isSome)
    (hk : c.blockTallies.get? i.block.slot = some k)
    (hl : ∀ s, l.get? s = if s = i.block.slot then
        some ⟨k.manualReward, k.votesIncluded + 1, k.newVotesIncluded + 1⟩
      else c.blockTallies.get? s)
    (hf : ∀ f, totals.get f = c.attestingBalance.get f +
      ((b.flagsOf i).has f).toNat * c.window.current.effectiveBalanceOf i.validator) :
    Walked b n (is ++ [i]) { c with
      tallies := c.tallies.set i.validator ⟨t.maxAttesterReward, some i.delay, b.flagsOf i⟩
      blockTallies := l
      attestingBalance := totals } := by
  have hw : c.window = b.window := by rw [h.frame]
  have hk₀ := hk
  rw [h.block, Option.map_eq_some_iff] at hk₀
  obtain ⟨k₀, hk₀, rfl⟩ := hk₀
  have ht₀ := ht
  rw [h.tally, Option.map_eq_some_iff] at ht₀
  obtain ⟨t₀, ht₀, rfl⟩ := ht₀
  refine ⟨by rw [h.frame], fun v => ?_, fun s => ?_, fun f => ?_, fun j hj => ?_,
    fun j hj => ?_⟩
  · show (c.tallies.set i.validator _)[v]? = _
    rw [List.getElem?_set]
    by_cases hv : i.validator = v
    · subst hv
      have hlt : i.validator < c.tallies.length := (List.getElem?_eq_some_iff.1 ht).1
      have hkeep : (b.settle is i.validator t₀).maxAttesterReward = t₀.maxAttesterReward := by
        unfold settle
        split <;> rfl
      rw [if_pos rfl, if_pos hlt, ht₀, Option.map_some, settle_append, if_pos ⟨rfl, hm⟩, hkeep]
    · rw [if_neg hv, h.tally]
      congr 1
      funext t
      rw [settle_append, if_neg]
      exact fun hn => hv hn.1
  · rw [hl]
    by_cases hs : s = i.block.slot
    · subst hs
      simp [hk₀, recount_append, hm]
      rfl
    · rw [if_neg hs, h.block]
      congr 1
      funext t
      simp [recount_append, Ne.symm hs]
      rfl
  · rw [earnedBalance_append, if_neg hm, hf, h.balance, hw, Nat.add_assoc]
  · rcases List.mem_append.1 hj with hj | hj
    · exact h.listed j hj
    · rw [List.mem_singleton.1 hj, hk₀]
      rfl
  · rcases List.mem_append.1 hj with hj | hj
    · exact h.registered j hj
    · rw [List.mem_singleton.1 hj, ← hw]
      exact hr

lemma walked_vote (hb : b.Unvoted) (h : Walked b n is c)
    (hv : Vote i.block i.delay (b.flagsOf i) i.validator c r c') :
    Walked b n (is ++ [i]) c' ∧
      b.credited (is ++ [i]) = b.credited is ++ r.toList := by
  have known {t : ValidatorTally} (ht : c.tallies[i.validator]? = some t) :
      t.inclusionDelay.isSome ↔ i.validator ∈ is.map Inclusion.validator := by
    rw [h.tally, Option.map_eq_some_iff] at ht
    obtain ⟨t₀, ht₀, rfl⟩ := ht
    exact isSome_settle (hb t₀ (List.mem_of_getElem? ht₀))
  rw [credited, credited, firsts_append_singleton]
  cases hv with
  | repeated tally registered seen listed =>
    have hm := (known tally).1 seen
    refine ⟨walked_repeated h hm registered listed, ?_⟩
    rw [if_pos hm]
    simp
  | first tally registered unseen listed counted balance =>
    have hm : i.validator ∉ is.map Inclusion.validator := fun hm => by
      have := (known tally).2 hm
      simp [unseen] at this
    refine ⟨walked_first h hm tally registered listed counted balance, ?_⟩
    rw [if_neg hm]
    simp [creditOf]

end Bundle

end EpochRewards
