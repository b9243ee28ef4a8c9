import EpochRewards.Proofs.Figures
import EpochRewards.Proofs.Settings
import EpochRewards.Proofs.Words
import Mathlib

/-!
Rewards as changes of balance.

The reward of a window is what the balance of a validator changes by from the second snapshot to the
last, with what was withdrawn in between. The windows of a run overlap in two snapshots, but each of
them is about another pair, so rewards of consecutive windows add up.
-/

namespace EpochRewards

/-- The withdrawals of a validator in some blocks. -/
def withdrawnIn (blocks : List Block) (v : ValidatorIndex) : Gwei :=
  (((blocks.flatMap (·.withdrawals)).filter (·.validator == v)).map (·.amount)).sum

lemma withdrawnIn_append (first second : List Block) (v : ValidatorIndex) :
    withdrawnIn (first ++ second) v = withdrawnIn first v + withdrawnIn second v := by
  simp only [withdrawnIn, List.flatMap_append, List.filter_append, List.map_append,
    List.sum_append]

/-- What is in a balance; a validator without one has nothing. -/
def Snapshot.balanceOf (s : Snapshot) (v : ValidatorIndex) : Gwei := (s.balance? v).getD 0

/-- By how much a balance grows from the second snapshot to the last, withdrawals included. -/
def Window.balanceChange (w : Window) (v : ValidatorIndex) : Int :=
  w.next.balanceOf v - w.current.balanceOf v + withdrawnIn w.next.blocks v

namespace Bundle

variable {b : Bundle} {w : Window} {s : Snapshot} {v : ValidatorIndex} {reward : Int}

lemma withdrawn_ok {amount : Gwei} (h : withdrawn w v = .ok amount) :
    amount = withdrawnIn w.next.blocks v := (Word.sum_ok h).symm

lemma signed?_ok {delta : Int} (h : signed? delta = .ok reward) : reward = delta := by
  unfold signed? at h
  split at h
  · exact (Calc.pure_ok.1 h).symm
  · cases h

/-- After a snapshot that is there the reward is the change of balance. -/
lemma epochReward_ok (hcurrent : b.window.current.isPlaceholder = false)
    (h : b.epochReward v = .ok reward) :
    (b.window.next.balance? v).isSome ∧ reward = b.window.balanceChange v := by
  simp only [epochReward, Calc.bind_ok, Calc.orFail_ok, hcurrent, Bool.false_eq_true, if_false,
    Calc.fault_ok] at h
  obtain ⟨after, hafter, amount, hamount, hreward⟩ := h
  have hbalance : b.window.next.balanceOf v = after := by rw [Snapshot.balanceOf, hafter]; rfl
  refine ⟨Option.isSome_of_eq_some hafter, ?_⟩
  rw [signed?_ok hreward, withdrawn_ok hamount, Window.balanceChange, hbalance]
  rfl

/-! ### Consecutive windows -/

/-- The bundles are about consecutive pairs of snapshots, from `s` on through those listed. Whatever
snapshots come first in their windows, those that come second are no placeholders. -/
inductive Follow : Snapshot → List Bundle → List Snapshot → Prop
  | stop (s : Snapshot) : Follow s [] []
  | step {s t : Snapshot} {b : Bundle} {bs : List Bundle} {ts : List Snapshot}
      (current : b.window.current = s) (next : b.window.next = t) (there : s.isPlaceholder = false)
      (rest : Follow t bs ts) : Follow s (b :: bs) (t :: ts)

/-- **Rewards telescope.** The rewards of consecutive windows add up to the change of balance over
all of them, with every withdrawal in between counted once. -/
theorem Follow.rewards_telescope {bs : List Bundle} {ts : List Snapshot} {rewards : List Int}
    (h : Follow s bs ts) (hrewards : bs.mapM (·.epochReward v) = .ok rewards) :
    rewards.sum = (ts.getLastD s).balanceOf v - s.balanceOf v
      + withdrawnIn (ts.flatMap (·.blocks)) v := by
  induction h generalizing rewards with
  | stop s =>
    obtain rfl := Calc.pure_ok.1 hrewards
    simp [withdrawnIn]
  | @step s t b bs ts hcurrent hnext hthere _ ih =>
    simp only [List.mapM_cons, Calc.bind_ok, Calc.pure_ok] at hrewards
    obtain ⟨reward, hreward, rest, hrest, rfl⟩ := hrewards
    have hchange : reward = t.balanceOf v - s.balanceOf v + withdrawnIn t.blocks v := by
      rw [(epochReward_ok (by rw [hcurrent, hthere]) hreward).2, Window.balanceChange, hcurrent,
        hnext]
    rw [List.sum_cons, hchange, ih hrest, List.flatMap_cons, withdrawnIn_append, Nat.cast_add,
      List.getLastD_cons]
    omega

/-- A snapshot of two validators whose only block withdraws from the first of them. -/
def payoutSnapshot (epoch : Epoch) (balance : Gwei) (amounts : List Gwei) : Snapshot :=
  let validator : Validator := ⟨.zero, 32, false, 0, 0, farFuture, farFuture⟩
  { Snapshot.placeholder epoch (4 * epoch + 3) with
    stateRoot := .ofNat 32 1
    validators := [validator, validator]
    balances := [balance, 32]
    blockRoots := List.replicate 16 .zero
    blocks := [{ Block.missed (4 * epoch + 1) 0 with
      proposed := true
      withdrawals := ⟨0, 1, 7⟩ :: amounts.map (⟨0, 0, ·⟩) }] }

/-- Four units are withdrawn in the third epoch and five in the last. -/
def payoutWindows : Window × Window :=
  let s₁ := payoutSnapshot 1 32 []
  let s₂ := payoutSnapshot 2 32 [2]
  let s₃ := payoutSnapshot 3 30 [3, 1]
  let s₄ := payoutSnapshot 4 33 [5]
  (⟨s₁, s₂, s₃⟩, ⟨s₂, s₃, s₄⟩)

lemma payoutWindows_rewards :
    reading .fourSlots .strictlyPositive payoutWindows.1 0 (fun _ rec => rec.reward) = some 2 ∧
      reading .fourSlots .strictlyPositive payoutWindows.2 0 (fun _ rec => rec.reward)
        = some 8 := by
  constructor
  · cbv
  · cbv

/-- The balance grows by one unit, and nine are withdrawn. -/
theorem payoutWindows_telescope :
    ∃ first second, build .fourSlots .strictlyPositive payoutWindows.1 = .ok first ∧
      build .fourSlots .strictlyPositive payoutWindows.2 = .ok second ∧
      first.epochReward 0 = .ok 2 ∧ second.epochReward 0 = .ok 8 ∧
      ([2, 8] : List Int).sum
        = (payoutSnapshot 4 33 [5]).balanceOf 0 - (payoutSnapshot 2 32 [2]).balanceOf 0
          + withdrawnIn ([payoutSnapshot 3 30 [3, 1], payoutSnapshot 4 33 [5]].flatMap (·.blocks))
            0 := by
  obtain ⟨first, rec₁, hfirst, hrec₁, hreward₁⟩ := exists_of_reading payoutWindows_rewards.1
  obtain ⟨second, rec₂, hsecond, hrec₂, hreward₂⟩ := exists_of_reading payoutWindows_rewards.2
  have h₁ : first.epochReward 0 = .ok 2 := hreward₁ ▸ (resolve_figures hrec₁).reward
  have h₂ : second.epochReward 0 = .ok 8 := hreward₂ ▸ (resolve_figures hrec₂).reward
  have hfollow : Follow (payoutSnapshot 2 32 [2]) [first, second]
      [payoutSnapshot 3 30 [3, 1], payoutSnapshot 4 33 [5]] := by
    refine .step ?_ ?_ rfl (.step ?_ ?_ rfl (.stop _))
    · rw [window_build hfirst]; rfl
    · rw [window_build hfirst]; rfl
    · rw [window_build hsecond]; rfl
    · rw [window_build hsecond]; rfl
  have hrun : [first, second].mapM (·.epochReward 0) = .ok [2, 8] := by
    rw [Calc.mapM_ok]
    exact .cons h₁ (.cons h₂ .nil)
  exact ⟨first, second, hfirst, hsecond, h₁, h₂, hfollow.rewards_telescope hrun⟩

end Bundle

end EpochRewards
