import EpochRewards.Proofs.Books
import EpochRewards.Proofs.Words

/-!
Seats of the sync committee.

Every seat earns the same, so what a validator earns is the number of its seats times that. The
reward of a seat is cut down by one division after the other, which leaves all seats together with no
more than their part of the base rewards.
-/

namespace EpochRewards.Altair

open EpochRewards.Bundle

/-! ### Holders -/

section Holders

variable {s : Snapshot} {key : PublicKey} {u v : ValidatorIndex} {x : Validator}

/-- The validators that are searched for the holder of a seat go backwards. -/
lemma pairwise_searched (s : Snapshot) :
    s.validators.zipIdx.reverse.Pairwise fun a b => b.2 < a.2 := by
  have hascending : (s.validators.zipIdx.map (·.2)).Pairwise (· < ·) := by
    rw [List.zipIdx_map_snd]
    exact List.pairwise_lt_range'
  exact List.pairwise_reverse.2 (List.pairwise_map.1 hascending)

lemma exists_seatHolder (hx : s.validator? v = some x) (hkey : x.key = key) :
    ∃ u, seatHolder s key = .ok u := by
  have hmem : (x, v) ∈ s.validators.zipIdx.reverse :=
    List.mem_reverse.2 (List.mem_zipIdx_iff_getElem?.2 hx)
  by_contra hnone
  simp only [seatHolder, Calc.orFail_ok, not_exists] at hnone
  rw [← Option.eq_none_iff_forall_ne_some, Option.map_eq_none_iff, List.find?_eq_none] at hnone
  exact hnone (x, v) hmem (beq_iff_eq.2 hkey)

/-- The validator has the key, and no later one does. -/
structure IsLastWith (s : Snapshot) (key : PublicKey) (v : ValidatorIndex) : Prop where
  has : ∃ x, s.validator? v = some x ∧ x.key = key
  last : ∀ u x, s.validator? u = some x → x.key = key → u ≤ v

lemma isLastWith_of_seatHolder (h : seatHolder s key = .ok v) : IsLastWith s key v := by
  rw [seatHolder, Calc.orFail_ok, Option.map_eq_some_iff] at h
  obtain ⟨⟨x, i⟩, hfound, rfl⟩ := h
  obtain ⟨hkey, before, behind, hsplit, hmiss⟩ := List.find?_eq_some_iff_append.1 hfound
  have hpairwise := pairwise_searched s
  rw [hsplit, List.pairwise_append] at hpairwise
  have hget {y : Validator} {j : Nat} :
      (y, j) ∈ before ++ (x, i) :: behind ↔ s.validator? j = some y := by
    rw [← hsplit, List.mem_reverse]
    exact List.mem_zipIdx_iff_getElem?
  refine ⟨⟨x, hget.1 (by simp), by simpa using hkey⟩, fun u y hy hykey => ?_⟩
  rcases List.mem_append.1 (hget.2 hy) with hmem | hmem
  · have hne := hmiss _ hmem
    simp [hykey] at hne
  · rcases List.mem_cons.1 hmem with heq | hmem
    · exact Nat.le_of_eq (Prod.mk.inj heq).2
    · exact Nat.le_of_lt ((List.pairwise_cons.1 hpairwise.2.1).1 _ hmem)

/-- A seat belongs to the last validator with its key. -/
lemma seatHolder_iff : seatHolder s key = .ok v ↔ IsLastWith s key v := by
  refine ⟨isLastWith_of_seatHolder, fun ⟨⟨x, hx, hkey⟩, hlast⟩ => ?_⟩
  obtain ⟨u, hu⟩ := exists_seatHolder hx hkey
  obtain ⟨⟨y, hy, hykey⟩, hulast⟩ := isLastWith_of_seatHolder hu
  have heq : u = v := Nat.le_antisymm (hlast u y hy hykey) (hulast v x hx hkey)
  rw [← heq]
  exact hu

end Holders

/-- The seats among these whose key resolves to the validator. -/
def seatsOf (s : Snapshot) (keys : List PublicKey) (v : ValidatorIndex) : Nat :=
  keys.countP fun key => (seatHolder s key).toOption = some v

lemma seatsOf_cons {s : Snapshot} {key : PublicKey} {keys : List PublicKey}
    {holder : ValidatorIndex} (h : seatHolder s key = .ok holder) (v : ValidatorIndex) :
    seatsOf s (key :: keys) v = seatsOf s keys v + if v = holder then 1 else 0 := by
  have hholder : (seatHolder s key).toOption = some holder := by rw [h]; rfl
  rw [seatsOf, List.countP_cons, hholder, seatsOf]
  by_cases hv : v = holder
  · simp [hv]
  · simp [hv, Ne.symm hv]

/-! ### Rewards of seats -/

variable {b c : Bundle} {reward : Gwei} {key : PublicKey} {keys : List PublicKey} {u : Unit}

lemma rewardSeat_ok (h : rewardSeat reward key b = .ok u c) :
    ∃ v, seatHolder b.window.next key = .ok v ∧ c = { b with
      maxSyncRewards := b.maxSyncRewards.insert v (b.maxSyncRewards.amount v + reward) } := by
  simp only [rewardSeat, creditSync, Pass.bind_ok, Pass.get_ok, Pass.lift_ok, Pass.fault_ok,
    Pass.modify_ok, Ledger.credit, Calc.bind_ok, Word.add_ok, Calc.pure_ok] at h
  obtain ⟨_, _, ⟨rfl, rfl⟩, v, _, ⟨hv, rfl⟩, _, _, ⟨rfl, rfl⟩, _, _, ⟨⟨_, ⟨-, rfl⟩, rfl⟩, rfl⟩, rfl⟩ := h
  exact ⟨v, hv, rfl⟩

/-- The bundle `b` with the reward for each of these seats. -/
structure Seated (b : Bundle) (reward : Gwei) (keys : List PublicKey) (c : Bundle) : Prop where
  frame : c = { b with maxSyncRewards := c.maxSyncRewards }
  held : ∀ key ∈ keys, ∃ v, seatHolder b.window.next key = .ok v
  amount : ∀ v, c.maxSyncRewards.amount v
    = b.maxSyncRewards.amount v + seatsOf b.window.next keys v * reward
  members : ∀ v, c.maxSyncRewards.contains v = true ↔
    b.maxSyncRewards.contains v = true ∨ 0 < seatsOf b.window.next keys v
  total : c.maxSyncRewards.values.sum = b.maxSyncRewards.values.sum + keys.length * reward

lemma forM_rewardSeat_ok (h : keys.forM (rewardSeat reward) b = .ok u c) :
    Seated b reward keys c := by
  induction keys generalizing b with
  | nil =>
    rw [Pass.forM_nil_ok] at h
    subst h
    exact ⟨rfl, fun _ hkey => (nomatch hkey), fun v => by simp [seatsOf],
      fun v => by simp [seatsOf], by simp⟩
  | cons key keys ih =>
    rw [Pass.forM_cons_ok] at h
    obtain ⟨_, hseat, h⟩ := h
    obtain ⟨holder, hholder, rfl⟩ := rewardSeat_ok hseat
    obtain ⟨hframe, hheld, hamount, hmembers, htotal⟩ := ih h
    refine ⟨hframe, fun k hk => ?_, fun v => ?_, fun v => ?_, ?_⟩
    · rcases List.mem_cons.1 hk with rfl | hk
      · exact ⟨holder, hholder⟩
      · exact hheld k hk
    · rw [hamount, Ledger.amount_insert, seatsOf_cons hholder]
      split
      · next hv =>
        rw [hv]
        ring
      · ring
    · rw [hmembers, Ledger.contains_insert, seatsOf_cons hholder]
      by_cases hv : v = holder
      · simp [hv]
      · simp [hv]
    · rw [htotal, Ledger.sum_values_credit, List.length_cons]
      ring

/-! ### The reward of a seat -/

lemma seatReward_ok {seat : Gwei} (h : seatReward b = .ok seat) :
    ∃ perIncrement, b.network.baseRewardPerIncrement b.nextActiveBalance = .ok perIncrement ∧
      seat = perIncrement * (b.nextActiveBalance / b.network.balanceIncrement.val) * syncWeight
        / weightDenominator / b.network.slotsPerEpoch.val / b.network.syncCommitteeSize.val := by
  simp only [seatReward, Calc.bind_ok, Word.mul_ok, Calc.pure_ok] at h
  obtain ⟨p, hp, _, ⟨-, rfl⟩, _, ⟨-, rfl⟩, rfl⟩ := h
  exact ⟨p, hp, rfl⟩

/-- What is divided among `size` seats and `slots` slots is not exceeded by fewer of both. -/
lemma seats_mul_le (total : Nat) {seats size rewarded slots : Nat} (hseats : seats ≤ size)
    (hslots : rewarded ≤ slots) : seats * (total / slots / size) * rewarded ≤ total :=
  calc seats * (total / slots / size) * rewarded
      ≤ size * (total / slots / size) * slots :=
        Nat.mul_le_mul (Nat.mul_le_mul_right _ hseats) hslots
    _ ≤ total / slots * slots := Nat.mul_le_mul_right _ (Nat.mul_div_le _ _)
    _ ≤ total := Nat.div_mul_le_self _ _

lemma processSyncCommittee_ok {committee : SyncCommittee}
    (hcommittee : b.window.next.syncCommittee = some committee)
    (h : processSyncCommittee b = .ok u c) :
    ∃ seat, seatReward b = .ok seat ∧
      Seated b (seat * (b.network.slotsPerEpoch.val - b.window.next.missedSlots.length))
        committee.keys c := by
  simp only [processSyncCommittee, Pass.bind_ok, Pass.get_ok] at h
  obtain ⟨_, _, ⟨rfl, rfl⟩, h⟩ := h
  simp only [hcommittee, Pass.bind_ok, Pass.fault_ok, Word.mul_ok] at h
  obtain ⟨seat, _, ⟨hseat, rfl⟩, _, _, ⟨⟨-, rfl⟩, rfl⟩, h⟩ := h
  exact ⟨seat, hseat, forM_rewardSeat_ok h⟩

/-- A record says what the bundle has about the sync committee. -/
lemma sync_record {v : ValidatorIndex} {rec : ValidatorRecord} (h : record b v = .ok rec) :
    rec.syncReward = b.maxSyncRewards.amount v ∧
      rec.inSyncCommittee = b.maxSyncRewards.contains v :=
  ⟨(altair_figures h).sync, (altair_figures h).seated⟩

end EpochRewards.Altair

namespace EpochRewards

open EpochRewards.Bundle

/-- The sync committee has earned `seat` with every seat and slot of the last snapshot that was not
missed; `perIncrement` is the base reward of an increment. -/
structure SyncConserved (net : Network) (w : Window) (committee : SyncCommittee)
    (perIncrement seat : Gwei) (b c : Bundle) : Prop where
  active : w.next.activeBalance net = .ok b.nextActiveBalance
  base : net.baseRewardPerIncrement b.nextActiveBalance = .ok perIncrement
  seatReward : Altair.seatReward b = .ok seat
  holder : ∀ key v, Altair.seatHolder w.next key = .ok v ↔ Altair.IsLastWith w.next key v
  held : ∀ key ∈ committee.keys, ∃ v, Altair.seatHolder w.next key = .ok v
  amount : ∀ v, c.maxSyncRewards.amount v = Altair.seatsOf w.next committee.keys v * seat
    * (net.slotsPerEpoch.val - w.next.missedSlots.length)
  members : ∀ v, c.maxSyncRewards.contains v = true ↔ 0 < Altair.seatsOf w.next committee.keys v
  total : c.maxSyncRewards.values.sum = committee.keys.length * seat
    * (net.slotsPerEpoch.val - w.next.missedSlots.length)
  /-- all together have no more than the committee's part of the base rewards -/
  capped : committee.keys.length ≤ net.syncCommitteeSize.val → c.maxSyncRewards.values.sum
    ≤ perIncrement * (b.nextActiveBalance / net.balanceIncrement.val) * syncWeight
      / weightDenominator
  recorded : ∀ v rec, Altair.record c v = .ok rec →
    rec.syncReward = c.maxSyncRewards.amount v ∧
      rec.inSyncCommittee = c.maxSyncRewards.contains v

namespace Window

variable {net : Network} {w : Window} {b c : Bundle}

/-- **Sync committee rewards are conserved.** Validators are rewarded by seats and by slots that were
not missed, and all of them together with no more than the committee's part of the base rewards. -/
theorem sync_rewards_conserved {phase : Phase} {preference : ReportPreference}
    {committee : SyncCommittee} (hcommittee : w.next.syncCommittee = some committee)
    (hb : fresh net phase preference w = .ok b) (hc : Altair.processSyncCommittee b = .ok () c) :
    ∃ perIncrement seat, SyncConserved net w committee perIncrement seat b c := by
  simp only [fresh, Calc.bind_ok, Calc.pure_ok] at hb
  obtain ⟨_, -, active, hactive, rfl⟩ := hb
  obtain ⟨seat, hseat, hframe, hheld, hamount, hmembers, htotal⟩ :=
    Altair.processSyncCommittee_ok hcommittee hc
  obtain ⟨perIncrement, hper, heq⟩ := Altair.seatReward_ok hseat
  have heach (v : ValidatorIndex) : c.maxSyncRewards.amount v
      = Altair.seatsOf w.next committee.keys v * seat
        * (net.slotsPerEpoch.val - w.next.missedSlots.length) :=
    (hamount v).trans ((Nat.zero_add _).trans (Nat.mul_assoc _ _ _).symm)
  have hmember (v : ValidatorIndex) : c.maxSyncRewards.contains v = true ↔
      0 < Altair.seatsOf w.next committee.keys v :=
    (hmembers v).trans (or_iff_right Bool.false_ne_true)
  have hall : c.maxSyncRewards.values.sum = committee.keys.length * seat
      * (net.slotsPerEpoch.val - w.next.missedSlots.length) :=
    htotal.trans ((Nat.zero_add _).trans (Nat.mul_assoc _ _ _).symm)
  refine ⟨perIncrement, seat, hactive, hper, hseat, fun _ _ => Altair.seatHolder_iff, hheld, heach,
    hmember, hall, fun hsize => ?_, fun v rec hrec => Altair.sync_record hrec⟩
  rw [hall, heq]
  exact Altair.seats_mul_le _ hsize (Nat.sub_le _ _)

/-- Three validators, two of them with one key, and a committee of three seats. -/
def seatedWindow : Window :=
  let validator (key : Nat) : Validator := ⟨.ofNat 48 key, 320, false, 0, 0, farFuture, farFuture⟩
  let block (slot : Slot) : Block := { Block.missed slot 0 with proposed := slot != 13 }
  let snapshot (epoch : Epoch) : Snapshot :=
    { Snapshot.placeholder epoch (4 * epoch + 3) with
      validators := [validator 1, validator 2, validator 2]
      syncCommittee := some ⟨[.ofNat 48 1, .ofNat 48 2, .ofNat 48 1]⟩
      blocks := (List.range' (4 * epoch) 4).map block }
  ⟨snapshot 1, snapshot 2, snapshot 3⟩

/-- Epochs of four slots, and a sync committee of four seats. -/
def fourSeats : Network :=
  { Network.fourSlots with syncCommitteeSize := Network.fourSlots.slotsPerEpoch }

lemma seatedWindow_rewards :
    (after (fresh fourSeats .altair .strictlyPositive seatedWindow)
      Altair.processSyncCommittee).map (·.maxSyncRewards.entries) = some [(0, 18), (2, 9)] := by
  decide +kernel

/-- A seat earns 3 in each of the three slots with a block. The second key is that of the last of
its validators. -/
theorem seatedWindow_rewards_conserved :
    ∃ committee b c perIncrement seat, seatedWindow.next.syncCommittee = some committee ∧
      fresh fourSeats .altair .strictlyPositive seatedWindow = .ok b ∧
      Altair.processSyncCommittee b = .ok () c ∧ c.maxSyncRewards.entries = [(0, 18), (2, 9)] ∧
        SyncConserved fourSeats seatedWindow committee perIncrement seat b c := by
  obtain ⟨b, _, c, hb, hc, hrewards⟩ := exists_of_after seatedWindow_rewards
  obtain ⟨perIncrement, seat, h⟩ := sync_rewards_conserved rfl hb hc
  exact ⟨_, b, c, perIncrement, seat, rfl, hb, hc, hrewards, h⟩

end Window

end EpochRewards
