import EpochRewards.Proofs.Merits
import EpochRewards.Proofs.Settings

/-!
Merits over two windows in a row.

The blocks of the last snapshot are paid for votes of two epochs, so votes for an epoch are paid
for in two windows. Nothing that the first pass paid for is known to the second one.
-/

namespace EpochRewards.Altair

open EpochRewards.Bundle

/-- A block of `s` includes a vote for the epoch of `voted` that earns the merit `m` by the roots
that `s` keeps. -/
def EarnedIn (b : Bundle) (voted s : Snapshot) (m : Merit) : Prop :=
  ∃ block ∈ s.proposedBlocks, ∃ a ∈ block.attestations,
    b.network.epochOf a.data.slot = voted.epoch ∧ a.data.slot < block.slot ∧
      m.validator ∈ voted.duties.voters a ∧
        (b.voteFlags a.data (block.slot - a.data.slot)
          ⟨voted.currentJustified,
            ⟨voted.epoch, keptRoot (s.blockRootOf b.network voted.epoch)⟩⟩
          (keptRoot (s.blockRootAt b.network a.data.slot))).has m.flag = true

variable {b b₁ b₂ c₁ c₂ : Bundle} {s₀ s₁ s₂ s₃ voted : Snapshot} {m : Merit}

/-- A pass pays for votes of the last two epochs. -/
lemma epoch_of_paid (h : m ∈ paidMerits b) :
    m.epoch = b.window.current.epoch ∨ m.epoch = b.window.next.epoch := by
  obtain ⟨x, hx, hm⟩ := mem_paidMerits.1 h
  obtain ⟨block, -, hx⟩ := List.mem_flatMap.1 hx
  obtain ⟨a, ha, rfl⟩ := List.mem_map.1 hx
  obtain ⟨v, -, hm⟩ := List.mem_flatMap.1 hm
  have hrewards := (List.mem_filter.1 ha).2
  have hepoch := (mem_voteMerits.1 hm).1
  simp only [rewards, decide_eq_true_eq] at hrewards
  rw [hepoch]
  by_contra hn
  rw [not_or] at hn
  simp [votedEpoch?, hn.1, hn.2] at hrewards

lemma paid_iff_earnedIn
    (hv : votedEpoch? b.window voted.epoch = some (voted.duties, voted.currentJustified))
    (hm : m.epoch = voted.epoch) : m ∈ paidMerits b ↔ EarnedIn b voted b.window.next m := by
  rw [mem_paidMerits]
  constructor
  · rintro ⟨x, hx, hmx⟩
    obtain ⟨block, hblock, hx⟩ := List.mem_flatMap.1 hx
    obtain ⟨a, ha, rfl⟩ := List.mem_map.1 hx
    obtain ⟨ha, hrewards⟩ := List.mem_filter.1 ha
    obtain ⟨v, hvoter, hmv⟩ := List.mem_flatMap.1 hmx
    obtain ⟨hepoch, rfl, hflag⟩ := mem_voteMerits.1 hmv
    have he : b.network.epochOf a.data.slot = voted.epoch := by rw [← hm, hepoch]
    simp only [rewards, decide_eq_true_eq] at hrewards
    simp only [flagsAt, sourceOf, dutiesOf, he, hv, Option.map_some, Option.getD_some]
      at hvoter hflag
    exact ⟨block, hblock, a, ha, he, hrewards.2, hvoter, hflag⟩
  · rintro ⟨block, hblock, a, ha, he, hlt, hvoter, hflag⟩
    refine ⟨(block, a), List.mem_flatMap.2 ⟨block, hblock, List.mem_map.2 ⟨a, ?_, rfl⟩⟩, ?_⟩
    · refine List.mem_filter.2 ⟨ha, ?_⟩
      rw [rewards, he, hv]
      simpa using hlt
    · refine List.mem_flatMap.2 ⟨m.validator, ?_, mem_voteMerits.2 ⟨?_, rfl, ?_⟩⟩
      · simpa only [dutiesOf, he, hv, Option.map_some, Option.getD_some] using hvoter
      · rw [hm, ← he]
      · simpa only [flagsAt, sourceOf, he, hv, Option.map_some, Option.getD_some] using hflag

lemma count_append_of_nodup {as bs : List Merit} (ha : as.Nodup) (hb : bs.Nodup) :
    1 < (as ++ bs).count m ↔ m ∈ as ∧ m ∈ bs := by
  rw [List.count_append, ha.count, hb.count]
  by_cases h₁ : m ∈ as <;> by_cases h₂ : m ∈ bs <;> simp [h₁, h₂]

/-- What two passes over windows in a row pay for. -/
structure PaidOver (b₁ b₂ c₁ c₂ : Bundle) (s₂ s₃ : Snapshot) : Prop where
  first : Pays b₁ ((payouts b₁ [] (rewardedAggregates b₁)).map (Payout.payment b₁)) c₁
  second : Pays b₂ ((payouts b₂ [] (rewardedAggregates b₂)).map (Payout.payment b₂)) c₂
  /-- neither pass alone pays for a merit twice -/
  once : (paidMerits b₁).Nodup ∧ (paidMerits b₂).Nodup
  /-- both pay for the merits of the epoch they share that blocks of both epochs include -/
  again : ∀ m, 1 < (paidMerits b₁ ++ paidMerits b₂).count m ↔
    m.epoch = s₂.epoch ∧ EarnedIn b₁ s₂ s₂ m ∧ EarnedIn b₂ s₂ s₃ m

/-- A merit is paid for twice over two windows exactly if votes in the blocks of both their last
epochs earn it for the first of these. -/
theorem processIncludedVotes_paidOver {u₁ u₂ : Unit} (hw₁ : b₁.window = ⟨s₀, s₁, s₂⟩)
    (hw₂ : b₂.window = ⟨s₁, s₂, s₃⟩) (h₂ : s₂.epoch = s₁.epoch + 1) (h₃ : s₃.epoch = s₂.epoch + 1)
    (hp₁ : processIncludedVotes b₁ = .ok u₁ c₁) (hp₂ : processIncludedVotes b₂ = .ok u₂ c₂) :
    PaidOver b₁ b₂ c₁ c₂ s₂ s₃ := by
  have hne : s₂.epoch ≠ s₁.epoch := h₂ ▸ Nat.succ_ne_self _
  have hne₃ : s₃.epoch ≠ s₁.epoch := by
    rw [h₃, h₂]
    exact Nat.ne_of_gt (Nat.lt_add_of_pos_right Nat.two_pos)
  have hv₁ : votedEpoch? b₁.window s₂.epoch = some (s₂.duties, s₂.currentJustified) := by
    rw [hw₁, votedEpoch?, if_neg hne, if_pos rfl]
  have hv₂ : votedEpoch? b₂.window s₂.epoch = some (s₂.duties, s₂.currentJustified) := by
    rw [hw₂, votedEpoch?, if_pos rfl]
  have hn₁ : b₁.window.next = s₂ := by rw [hw₁]
  have hn₂ : b₂.window.next = s₃ := by rw [hw₂]
  refine ⟨(processIncludedVotes_ok hp₁).2.2, (processIncludedVotes_ok hp₂).2.2,
    ⟨nodup_paidMerits b₁, nodup_paidMerits b₂⟩, fun m => ?_⟩
  rw [count_append_of_nodup (nodup_paidMerits b₁) (nodup_paidMerits b₂)]
  constructor
  · rintro ⟨hm₁, hm₂⟩
    have he₁ := epoch_of_paid hm₁
    have he₂ := epoch_of_paid hm₂
    rw [hw₁] at he₁
    rw [hw₂] at he₂
    have he : m.epoch = s₂.epoch := by
      rcases he₁ with he | he
      · rcases he₂ with he' | he'
        · exact he'
        · exact absurd (he'.symm.trans he) hne₃
      · exact he
    rw [paid_iff_earnedIn hv₁ he, hn₁] at hm₁
    rw [paid_iff_earnedIn hv₂ he, hn₂] at hm₂
    exact ⟨he, hm₁, hm₂⟩
  · rintro ⟨he, hm₁, hm₂⟩
    rw [paid_iff_earnedIn hv₁ he, paid_iff_earnedIn hv₂ he, hn₁, hn₂]
    exact ⟨hm₁, hm₂⟩

/-! ### A repeated vote -/

/-- Four slots to an epoch; one validator whose vote for slot 10 is in the blocks of slots 11
and 12. -/
def repeatSnapshot (epoch : Epoch) : Snapshot :=
  let block : Block := ⟨if epoch = 2 then 11 else 12, 0, true,
    [⟨.ofBits [true], ⟨10, 0, .zero, ⟨0, .zero⟩, ⟨2, .zero⟩⟩⟩], none, [], [], [], none⟩
  { Snapshot.placeholder epoch (4 * epoch + 3) with
    validators := [⟨.zero, 32, false, 0, 0, farFuture, farFuture⟩]
    blockRoots := List.replicate 16 .zero
    blocks := if epoch < 2 then [] else [block]
    duties := ⟨[⟨10, 0, [0]⟩], []⟩ }

def repeatWindow (epoch : Epoch) : Window :=
  ⟨repeatSnapshot epoch, repeatSnapshot (epoch + 1), repeatSnapshot (epoch + 2)⟩

lemma repeatWindow_paid :
    (∃ b c, openAltair .fourSlots .strictlyPositive (repeatWindow 0) = .ok b ∧
      processIncludedVotes b = .ok () c ∧
        paidMerits b = [⟨2, 0, .source⟩, ⟨2, 0, .target⟩, ⟨2, 0, .head⟩] ∧
          c.maxProposerRewards.entries = [(0, 46)]) ∧
      ∃ b c, openAltair .fourSlots .strictlyPositive (repeatWindow 1) = .ok b ∧
        processIncludedVotes b = .ok () c ∧
          paidMerits b = [⟨2, 0, .source⟩, ⟨2, 0, .target⟩] ∧
            c.maxProposerRewards.entries = [(0, 34)] :=
  ⟨⟨_, _, rfl, rfl, rfl, rfl⟩, _, _, rfl, rfl, rfl, rfl⟩

/-- The vote's source and target are paid for in both passes, its head in the first. -/
theorem repeatWindow_paidOver :
    ∃ b₁ b₂ c₁ c₂, openAltair .fourSlots .strictlyPositive (repeatWindow 0) = .ok b₁ ∧
      openAltair .fourSlots .strictlyPositive (repeatWindow 1) = .ok b₂ ∧
        processIncludedVotes b₁ = .ok () c₁ ∧ processIncludedVotes b₂ = .ok () c₂ ∧
          PaidOver b₁ b₂ c₁ c₂ (repeatSnapshot 2) (repeatSnapshot 3) ∧
            EarnedIn b₁ (repeatSnapshot 2) (repeatSnapshot 2) ⟨2, 0, .target⟩ ∧
              EarnedIn b₂ (repeatSnapshot 2) (repeatSnapshot 3) ⟨2, 0, .target⟩ ∧
                c₁.maxProposerRewards.entries = [(0, 46)] ∧
                  c₂.maxProposerRewards.entries = [(0, 34)] := by
  obtain ⟨⟨b₁, c₁, ho₁, h₁, hmerits₁, hpaid₁⟩, b₂, c₂, ho₂, h₂, hmerits₂, hpaid₂⟩ :=
    repeatWindow_paid
  have h : PaidOver b₁ b₂ c₁ c₂ (repeatSnapshot 2) (repeatSnapshot 3) :=
    processIncludedVotes_paidOver (window_fresh ho₁) (window_fresh ho₂) rfl rfl h₁ h₂
  have htwice : 1 < (paidMerits b₁ ++ paidMerits b₂).count ⟨2, 0, .target⟩ := by
    rw [hmerits₁, hmerits₂]
    decide
  obtain ⟨-, hfirst, hsecond⟩ := (h.again _).1 htwice
  exact ⟨b₁, b₂, c₁, c₂, ho₁, ho₂, h₁, h₂, h, hfirst, hsecond, hpaid₁, hpaid₂⟩

/-- A merit is not paid for at most once over two windows in a row. -/
theorem not_paid_once :
    ¬ ∀ (net : Network) (preference : ReportPreference) (s₀ s₁ s₂ s₃ : Snapshot)
        (b₁ b₂ c₁ c₂ : Bundle), openAltair net preference ⟨s₀, s₁, s₂⟩ = .ok b₁ →
      openAltair net preference ⟨s₁, s₂, s₃⟩ = .ok b₂ →
        s₁.epoch = s₀.epoch + 1 → s₂.epoch = s₁.epoch + 1 → s₃.epoch = s₂.epoch + 1 →
          processIncludedVotes b₁ = .ok () c₁ → processIncludedVotes b₂ = .ok () c₂ →
            ∀ m, (paidMerits b₁ ++ paidMerits b₂).count m ≤ 1 := by
  intro hall
  obtain ⟨⟨b₁, c₁, ho₁, h₁, hmerits₁, -⟩, b₂, c₂, ho₂, h₂, hmerits₂, -⟩ := repeatWindow_paid
  have h := hall _ _ _ _ _ _ b₁ b₂ c₁ c₂ ho₁ ho₂ rfl rfl rfl h₁ h₂ ⟨2, 0, .target⟩
  rw [hmerits₁, hmerits₂] at h
  exact absurd h (by decide)

end EpochRewards.Altair
