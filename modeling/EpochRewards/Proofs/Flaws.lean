import EpochRewards.Proofs.Ledgers
import EpochRewards.Proofs.Words
import EpochRewards.Reward.Accounting

/-!
Flaws of a window, and passes that fail only because of one.

An error that a pass returns is true of the window: the validator, the block, the committee, the
root or the seat that it names is missing there. A fault is a sum or a product that is no word.
-/

namespace EpochRewards

/-- A vote for the epoch of `t` in a proposed block of `s`, cast before the block. -/
structure Snapshot.Votes (net : Network) (s t : Snapshot) (block : Block) (a : Attestation) :
    Prop where
  proposed : block ∈ s.proposedBlocks
  included : a ∈ block.attestations
  epoch : net.epochOf a.data.slot = t.epoch
  earlier : a.data.slot < block.slot

namespace Window

/-- What is wrong with a window of which the passes return an error. -/
inductive Flaw (net : Network) (w : Window) : RewardError → Prop
  /-- a slashing report about a validator that the last registry does not have -/
  | slashed {block : Block} {v : ValidatorIndex} (proposed : block ∈ w.next.proposedBlocks)
      (reported : v ∈ block.slashedIndices) (missing : w.next.validator? v = none) :
      Flaw net w (.validatorNotFound v)
  /-- a slot in reach of a committee's votes that no snapshot lists -/
  | opportunity {c : Committee} {delay : Nat} (duty : c ∈ w.prev.duties.committees)
      (positive : 0 < delay) (reach : delay ≤ net.slotsPerEpoch.val)
      (missing : w.blockAt? (c.slot + delay) = none) :
      Flaw net w (.blockNotInWindow (c.slot + delay))
  | target {e : RewardError} (missing : w.current.blockRootOf net w.prev.epoch = .error (.error e)) :
      Flaw net w e
  | head {s : Snapshot} {block : Block} {a : Attestation} {e : RewardError}
      (lists : s ∈ [w.prev, w.current]) (votes : s.Votes net w.prev block a)
      (missing : w.current.blockRootAt net a.data.slot = .error (.error e)) : Flaw net w e
  | lastTarget {t : Snapshot} {block : Block} {a : Attestation} {e : RewardError}
      (voted : t ∈ [w.current, w.next]) (votes : w.next.Votes net t block a)
      (missing : w.next.blockRootOf net t.epoch = .error (.error e)) : Flaw net w e
  | lastHead {t : Snapshot} {block : Block} {a : Attestation} {e : RewardError}
      (voted : t ∈ [w.current, w.next]) (votes : w.next.Votes net t block a)
      (missing : w.next.blockRootAt net a.data.slot = .error (.error e)) : Flaw net w e
  /-- a committee that does not exist or has no member behind a set bit -/
  | attesters {s t : Snapshot} {block : Block} {a : Attestation} {e : RewardError}
      (lists : s ∈ w.snapshots) (voted : t ∈ w.snapshots) (votes : s.Votes net t block a)
      (missing : t.duties.attesters a = .error (.error e)) : Flaw net w e
  /-- a committee member that has no tally -/
  | uncovered {c : Committee} {v : ValidatorIndex} (duty : c ∈ w.prev.duties.committees)
      (member : v ∈ c.members) (missing : w.next.validators.length ≤ v) :
      Flaw net w (.validatorOutsideBundle v)
  /-- a committee member that the current registry does not have -/
  | unregistered {c : Committee} {v : ValidatorIndex} (duty : c ∈ w.prev.duties.committees)
      (member : v ∈ c.members) (missing : w.current.validator? v = none) :
      Flaw net w (.validatorNotFound v)
  /-- a committee member of the last two epochs that the last registry does not have -/
  | unvalued {t : Snapshot} {c : Committee} {v : ValidatorIndex} (voted : t ∈ [w.current, w.next])
      (duty : c ∈ t.duties.committees) (member : v ∈ c.members)
      (missing : w.next.validator? v = none) : Flaw net w (.validatorNotFound v)
  /-- a validator to be rewarded that the current registry does not have -/
  | analysed {v : ValidatorIndex} (active : v ∈ w.next.activeIndices w.prev.epoch)
      (missing : w.current.validator? v = none) : Flaw net w (.validatorNotFound v)
  | seat {committee : SyncCommittee} {key : PublicKey}
      (sits : w.next.syncCommittee = some committee) (holds : key ∈ committee.keys)
      (missing : ∀ v ∈ w.next.validators, v.key ≠ key) : Flaw net w (.syncMemberNotFound key)

/-- A failure that the arithmetic or the window is to blame for. -/
def Blames (net : Network) (w : Window) : Failure RewardError → Prop
  | .fault f => f.IsOverflow
  | .error e => w.Flaw net e

/-- The slots that the snapshots list blocks for. -/
def listedSlots (w : Window) : List Slot := w.blocks.map (·.slot)

variable {net : Network} {w : Window}

lemma mem_listedSlots {s : Snapshot} {block : Block} (hs : s ∈ w.snapshots)
    (hblock : block ∈ s.blocks) : block.slot ∈ w.listedSlots :=
  List.mem_map_of_mem (List.mem_flatMap.2 ⟨s, hs, hblock⟩)

/-- A failure whose error is a flaw, of a computation that otherwise only overflows. -/
lemma errs_blames {α : Type} {x : Calc α} (hfault : ∀ f, x = .error (.fault f) → f.IsOverflow)
    (herror : ∀ e, x = .error (.error e) → w.Flaw net e) : Calc.Errs (w.Blames net) x := by
  intro e h
  cases e with
  | fault f => exact hfault f h
  | error e => exact herror e h

end Window

/-! ### Bundles in the middle of the passes -/

/-- A bundle of the window `w` for which the opportunities after the given slots are known. -/
structure Bundle.Stands (net : Network) (w : Window) (slots : List Slot) (b : Bundle) : Prop where
  network : b.network = net
  window : b.window = w
  staked : net.balanceIncrement.val ≤ b.currentActiveBalance
  covered : b.tallies.length = w.next.validators.length
  listed : ∀ s ∈ w.listedSlots, (b.blockTallies.get? s).isSome
  ahead : ∀ s d, b.opportunities.get? s = some (some d) → 0 < d
  indexed : ∀ s ∈ slots, (b.opportunities.get? s).isSome

namespace Pass

variable {α β : Type} {net : Network} {w : Window} {slots : List Slot}

/-- From bundles that stand the pass yields what `Q` says and leaves bundles that stand. It fails
only where the arithmetic or the window is to blame. -/
def Sound (net : Network) (w : Window) (slots : List Slot) (Q : α → Prop) (m : Pass α) : Prop :=
  ∀ b : Bundle, b.Stands net w slots →
    Meets (fun e _ => w.Blames net e) (fun a c => Q a ∧ c.Stands net w slots) (m b)

namespace Sound

variable {Q R : α → Prop}

lemma pure {a : α} (h : Q a) : Sound net w slots Q (Pure.pure a) := fun _ hb => ⟨h, hb⟩

lemma bind {m : Pass α} {f : α → Pass β} {Q : β → Prop} (hm : Sound net w slots R m)
    (hf : ∀ a, R a → Sound net w slots Q (f a)) : Sound net w slots Q (m >>= f) :=
  fun b hb => (hm b hb).bind fun a c _ h => hf a h.1 c h.2

lemma get_bind {f : Bundle → Pass β} {Q : β → Prop}
    (hf : ∀ b : Bundle, b.Stands net w slots → Sound net w slots Q (f b)) :
    Sound net w slots Q (get >>= f) :=
  fun b hb => Meets.get_bind (hf b hb b hb)

lemma lift_bind {x : Calc α} {f : α → Pass β} {Q : β → Prop} (hx : Calc.Errs (w.Blames net) x)
    (hf : ∀ a, x = .ok a → Sound net w slots Q (f a)) : Sound net w slots Q (liftM x >>= f) :=
  fun b hb => Meets.lift_bind hx fun a ha => hf a ha b hb

lemma fault_bind {x : Except Fault α} {f : α → Pass β} {Q : β → Prop}
    (hx : Calc.Errs Fault.IsOverflow x) (hf : ∀ a, x = .ok a → Sound net w slots Q (f a)) :
    Sound net w slots Q (liftM x >>= f) :=
  fun b hb => Meets.fault_bind hx fun a ha => hf a ha b hb

lemma modify {f : Bundle → Bundle}
    (hf : ∀ b : Bundle, b.Stands net w slots → (f b).Stands net w slots) :
    Sound net w slots (fun _ => True) (modify f) := fun b hb => ⟨trivial, hf b hb⟩

lemma forM {f : α → Pass PUnit} {xs : List α}
    (hf : ∀ x ∈ xs, Sound net w slots (fun _ => True) (f x)) :
    Sound net w slots (fun _ => True) (xs.forM f) := fun _ hb =>
  (Meets.forM_mem hb fun x hx c hc => (hf x hx c hc).mono fun _ _ _ h => h.2).mono
    fun _ _ _ h => ⟨trivial, h⟩

lemma foldlM {f : β → α → Pass β} {xs : List α} {y : β}
    (hf : ∀ x ∈ xs, ∀ y, Sound net w slots (fun _ => True) (f y x)) :
    Sound net w slots (fun _ => True) (xs.foldlM f y) := fun _ hb =>
  Meets.foldlM_mem (J := fun _ c => True ∧ c.Stands net w slots) ⟨trivial, hb⟩
    fun x hx y c hc => hf x hx y c hc.2

lemma mapM {f : α → Pass β} {Q : β → Prop} {xs : List α}
    (hf : ∀ x ∈ xs, Sound net w slots Q (f x)) :
    Sound net w slots (fun ys => ∀ y ∈ ys, Q y) (xs.mapM f) := by
  induction xs with
  | nil => exact pure fun _ hy => nomatch hy
  | cons x xs ih =>
    rw [List.mapM_cons]
    refine (hf x List.mem_cons_self).bind fun y hy =>
      (ih fun z hz => hf z (List.mem_cons_of_mem _ hz)).bind fun ys hys => pure fun z hz => ?_
    rcases List.mem_cons.1 hz with rfl | hz
    · exact hy
    · exact hys z hz

end Sound

end Pass

/-! ### Changes of single figures -/

lemma Ledger.errs_credit (l : Ledger Nat) (k n : Nat) :
    Calc.Errs Fault.IsOverflow (l.credit k n) :=
  Word.errs_add.bind fun _ _ => .ok _

namespace Bundle

open Pass

variable {net : Network} {w : Window} {slots : List Slot} {b : Bundle} {slot : Slot}
  {v : ValidatorIndex}

lemma Stands.errs_blockTally (hb : b.Stands net w slots) (hslot : slot ∈ w.listedSlots) :
    Calc.Errs (w.Blames net) (b.blockTally slot) := by
  refine .orFail fun h => ?_
  have hlisted := hb.listed slot hslot
  rw [h] at hlisted
  exact absurd hlisted (by simp)

/-- Tallies may change as long as every validator and every block keeps one. -/
lemma Stands.update (hb : b.Stands net w slots) {c : Bundle} (hset : c.network = b.network)
    (hwin : c.window = b.window) (hstake : c.currentActiveBalance = b.currentActiveBalance)
    (hlen : c.tallies.length = b.tallies.length)
    (hkeep : ∀ s, (b.blockTallies.get? s).isSome → (c.blockTallies.get? s).isSome)
    (hopp : c.opportunities = b.opportunities) : c.Stands net w slots where
  network := hset.trans hb.network
  window := hwin.trans hb.window
  staked := hstake ▸ hb.staked
  covered := hlen.trans hb.covered
  listed s hs := hkeep s (hb.listed s hs)
  ahead := hopp ▸ hb.ahead
  indexed := hopp ▸ hb.indexed

lemma Stands.insertBlockTally (hb : b.Stands net w slots) (slot : Slot) (t : BlockTally) :
    { b with blockTallies := b.blockTallies.insert slot t }.Stands net w slots :=
  hb.update rfl rfl rfl rfl (fun _ hs => b.blockTallies.isSome_insert slot t hs) rfl

lemma Stands.setTally (hb : b.Stands net w slots) (v : ValidatorIndex) (t : ValidatorTally) :
    { b with tallies := b.tallies.set v t }.Stands net w slots :=
  hb.update rfl rfl rfl List.length_set (fun _ hs => hs) rfl

lemma sound_setBlockTally (slot : Slot) (t : BlockTally) :
    Sound net w slots (fun _ => True) (setBlockTally slot t) :=
  .modify fun _ hb => hb.insertBlockTally slot t

/-- A validator of the last registry has a place among the tallies. -/
lemma sound_setTally (hv : v < w.next.validators.length) (t : ValidatorTally) :
    Sound net w slots (fun _ => True) (setTally v t) := by
  intro b hb
  have hplace : b.tallied v t = .ok (b.tallies.set v t) :=
    tallied_ok.2 ⟨by rwa [hb.covered], rfl⟩
  exact .get_bind (.known_bind hplace (.modify ⟨trivial, hb.setTally v t⟩))

lemma sound_countVote (hslot : slot ∈ w.listedSlots) :
    Sound net w slots (fun _ => True) (countVote slot) :=
  .get_bind fun _ hb => .lift_bind (hb.errs_blockTally hslot) fun _ _ => sound_setBlockTally _ _

lemma sound_countNewVote (hslot : slot ∈ w.listedSlots) :
    Sound net w slots (fun _ => True) (countNewVote slot) :=
  .get_bind fun _ hb => .lift_bind (hb.errs_blockTally hslot) fun _ _ => sound_setBlockTally _ _

lemma sound_addManualReward (hslot : slot ∈ w.listedSlots) (amount : Gwei) :
    Sound net w slots (fun _ => True) (addManualReward slot amount) :=
  .get_bind fun _ hb => .lift_bind (hb.errs_blockTally hslot) fun _ _ =>
    .fault_bind Word.errs_add fun _ _ => sound_setBlockTally _ _

lemma sound_creditProposer (v : ValidatorIndex) (amount : Gwei) :
    Sound net w slots (fun _ => True) (creditProposer v amount) :=
  .get_bind fun _ _ => .fault_bind (Ledger.errs_credit _ _ _) fun _ _ =>
    .modify fun _ hb => hb.update rfl rfl rfl rfl (fun _ hs => hs) rfl

lemma sound_creditSlashing (v : ValidatorIndex) (amount : Gwei) :
    Sound net w slots (fun _ => True) (creditSlashing v amount) :=
  .get_bind fun _ _ => .fault_bind (Ledger.errs_credit _ _ _) fun _ _ =>
    .modify fun _ hb => hb.update rfl rfl rfl rfl (fun _ hs => hs) rfl

lemma sound_creditSync (v : ValidatorIndex) (amount : Gwei) :
    Sound net w slots (fun _ => True) (creditSync v amount) :=
  .get_bind fun _ _ => .fault_bind (Ledger.errs_credit _ _ _) fun _ _ =>
    .modify fun _ hb => hb.update rfl rfl rfl rfl (fun _ hs => hs) rfl

lemma sound_addAttesting (amount : Gwei) (flag : Flag) :
    Sound net w slots (fun _ => True) (addAttesting amount flag) :=
  .get_bind fun _ _ => .fault_bind Word.errs_add fun _ _ =>
    .modify fun _ hb => hb.update rfl rfl rfl rfl (fun _ hs => hs) rfl

lemma sound_payProposer {block : Block} (hslot : block.slot ∈ w.listedSlots) (amount : Gwei) :
    Sound net w slots (fun _ => True) (payProposer block amount) :=
  (sound_creditProposer _ _).bind fun _ _ => sound_addManualReward hslot _

/-- A validator of the last registry has a tally. -/
lemma Stands.errs_tally (hb : b.Stands net w slots)
    (hv : w.next.validators.length ≤ v → w.Flaw net (.validatorOutsideBundle v)) :
    Calc.Errs (w.Blames net) (b.tally v) := by
  refine .orFail fun h => hv ?_
  rw [List.getElem?_eq_none_iff, hb.covered] at h
  exact h

lemma sound_addAttesterReward (hv : v < w.next.validators.length) (amount : Gwei) :
    Sound net w slots (fun _ => True) (addAttesterReward v amount) :=
  .get_bind fun _ hb => .lift_bind (hb.errs_tally fun h => absurd hv (Nat.not_lt.2 h))
    fun _ _ => .fault_bind Word.errs_add fun _ _ => sound_setTally hv _

end Bundle

end EpochRewards
