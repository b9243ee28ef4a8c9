import EpochRewards.Proofs.Codecs
import EpochRewards.Row.Format

/-!
Rows are decoded from their own forms.

The figures of a row are words and its reward a signed word. Such a row is decoded from its form
as the row of its own table.
-/

namespace EpochRewards

open Codec Codec.Fields

/-! ### Figures -/

def ValidatorRecord.words (r : ValidatorRecord) : List Nat :=
  [r.validator, r.epoch, r.slot, r.balance, r.maxReward, r.attestationReward, r.syncReward,
    r.proposerReward, r.slashingReward, r.baseReward, r.computedProposerReward,
    r.inclusionDelay] ++ r.reportedProposerReward.toList

def EpochSummary.words (r : EpochSummary) : List Nat :=
  [r.epoch, r.slot, r.attestationCount, r.attestingValidators, r.activeValidators, r.totalBalance,
    r.attestingTargetBalance, r.totalEffectiveBalance, r.missingSource, r.missingTarget,
    r.missingHead] ++ r.missedSlots

def ProposerDuty.words (r : ProposerDuty) : List Nat := [r.validator, r.slot]

def BlockSummary.words (r : BlockSummary) : List Nat :=
  [r.epoch, r.slot, r.proposer, r.attestationCount, r.syncParticipants, r.proposerSlashings,
    r.attesterSlashings, r.withdrawalCount, r.withdrawnAmount] ++ r.reportedReward.toList

def AttestationRecord.words (r : AttestationRecord) : List Nat :=
  [r.epoch, r.slot, r.attestationSlot, r.committee, r.sourceEpoch, r.targetEpoch, r.participants]

def WithdrawalRecord.words (r : WithdrawalRecord) : List Nat :=
  [r.epoch, r.slot, r.index, r.validator, r.amount]

namespace Row

/-- The figures of a row that are not signed. -/
def words : Row → List Nat
  | validator r => r.words
  | summary r => r.words
  | duty r => r.words
  | block r => r.words
  | attestation r => r.words
  | withdrawal r => r.words

/-- The signed figures of a row. -/
def integers : Row → List Int
  | validator r => [r.reward]
  | _ => []

/-- Every figure of a row is within its range. -/
structure Sized (row : Row) : Prop where
  words : ∀ n ∈ row.words, n < Word.bound
  integers : ∀ i ∈ row.integers, -(Word.signedBound : Int) ≤ i ∧ i < Word.signedBound

instance (row : Row) : Decidable row.Sized :=
  decidable_of_iff ((∀ n ∈ row.words, n < Word.bound) ∧
      ∀ i ∈ row.integers, -(Word.signedBound : Int) ≤ i ∧ i < Word.signedBound)
    ⟨fun h => ⟨h.1, h.2⟩, fun h => ⟨h.words, h.integers⟩⟩

end Row

/-! ### Kinds of rows -/

lemma ValidatorStatus.spells_codec (s : ValidatorStatus) : codec.Spells s :=
  spells_named (by cases s <;> decide)

lemma spells_nullable_word {x : Option Nat} (h : ∀ n ∈ x, n < Word.bound) :
    word.nullable.Spells x :=
  spells_nullable (fun n (h : Json.nat n = .null) => nomatch h) fun n hn => spells_word (h n hn)

lemma spells_nullable_text (x : Option String) : text.nullable.Spells x :=
  spells_nullable (fun s (h : Json.str s = .null) => nomatch h) fun s _ => spells_text s

lemma WithdrawalRecord.spells_codec {r : WithdrawalRecord} (h : ∀ n ∈ r.words, n < Word.bound) :
    codec.Spells r := by
  simp only [words, List.forall_mem_cons] at h
  obtain ⟨hepoch, hslot, hindex, hvalidator, hamount, -⟩ := h
  exact spells_record rfl (by decide)
    (spell_req (spells_word hepoch) <| spell_req (spells_word hslot) <|
      spell_req (spells_word hindex) <| spell_req (spells_word hvalidator) <|
        spell_req (spells_word hamount) spell_none)

lemma ProposerDuty.spells_codec {r : ProposerDuty} (h : ∀ n ∈ r.words, n < Word.bound) :
    codec.Spells r := by
  simp only [words, List.forall_mem_cons] at h
  obtain ⟨hvalidator, hslot, -⟩ := h
  exact spells_record rfl (by decide)
    (spell_req (spells_word hvalidator) <| spell_req (spells_word hslot) <|
      spell_req (spells_bool _) spell_none)

lemma AttestationRecord.spells_codec {r : AttestationRecord} (h : ∀ n ∈ r.words, n < Word.bound) :
    codec.Spells r := by
  simp only [words, List.forall_mem_cons] at h
  obtain ⟨hepoch, hslot, hattestation, hcommittee, hsource, htarget, hparticipants, -⟩ := h
  exact spells_record rfl (by decide)
    (spell_req (spells_word hepoch) <| spell_req (spells_word hslot) <|
      spell_req (spells_word hattestation) <| spell_req (spells_word hcommittee) <|
        spell_req (Digest.spells_codec _) <| spell_req (spells_word hsource) <|
          spell_req (Digest.spells_codec _) <| spell_req (spells_word htarget) <|
            spell_req (Digest.spells_codec _) <| spell_req (spells_word hparticipants) spell_none)

lemma BlockSummary.spells_codec {r : BlockSummary} (h : ∀ n ∈ r.words, n < Word.bound) :
    codec.Spells r := by
  simp only [words, List.forall_mem_append, List.forall_mem_cons, Option.mem_toList] at h
  obtain ⟨⟨hepoch, hslot, hproposer, hattestations, hsync, hproposers, hattesters, hwithdrawals,
    hamount, -⟩, hreported⟩ := h
  exact spells_record rfl (by decide)
    (spell_req (spells_word hepoch) <| spell_req (spells_word hslot) <|
      spell_req (spells_word hproposer) <| spell_req (spells_bool _) <|
        spell_req (spells_word hattestations) <| spell_req (spells_word hsync) <|
          spell_req (spells_word hproposers) <| spell_req (spells_word hattesters) <|
            spell_req (spells_word hwithdrawals) <| spell_req (spells_word hamount) <|
              spell_opt (spells_nullable_word hreported) spell_none)

lemma EpochSummary.spells_codec {r : EpochSummary} (h : ∀ n ∈ r.words, n < Word.bound) :
    codec.Spells r := by
  simp only [words, List.forall_mem_append, List.forall_mem_cons] at h
  obtain ⟨⟨hepoch, hslot, hcount, hattesting, hactive, htotal, htarget, heffective, hsource,
    htargets, hheads, -⟩, hmissed⟩ := h
  exact spells_record rfl (by decide)
    (spell_req (spells_word hepoch) <| spell_req (spells_word hslot) <|
      spell_req (spells_word hcount) <| spell_req (spells_word hattesting) <|
        spell_req (spells_word hactive) <| spell_req (spells_word htotal) <|
          spell_req (spells_word htarget) <| spell_req (spells_word heffective) <|
            spell_req (spells_word hsource) <| spell_req (spells_word htargets) <|
              spell_req (spells_word hheads) <|
                spell_req (spells_list fun n hn => spells_word (hmissed n hn)) spell_none)

lemma ValidatorRecord.spells_codec {r : ValidatorRecord} (h : ∀ n ∈ r.words, n < Word.bound)
    (hlow : -(Word.signedBound : Int) ≤ r.reward) (hhigh : r.reward < Word.signedBound) :
    codec.Spells r := by
  simp only [words, List.forall_mem_append, List.forall_mem_cons, Option.mem_toList] at h
  obtain ⟨⟨hvalidator, hepoch, hslot, hbalance, hmax, hattestation, hsync, hproposer, hslashing,
    hbase, hcomputed, hdelay, -⟩, hreported⟩ := h
  exact spells_record rfl (by decide)
    (spell_req (spells_word hvalidator) <| spell_req (spells_word hepoch) <|
      spell_req (spells_word hslot) <| spell_req (spells_word hbalance) <|
        spell_req (spells_int hlow hhigh) <| spell_req (spells_word hmax) <|
          spell_req (spells_word hattestation) <| spell_req (spells_word hsync) <|
            spell_req (spells_word hproposer) <| spell_req (spells_word hslashing) <|
              spell_req (spells_word hbase) <| spell_req (spells_bool _) <|
                spell_req (spells_bool _) <| spell_req (spells_bool _) <|
                  spell_req (ValidatorStatus.spells_codec _) <|
                    spell_opt (spells_nullable_word hreported) <|
                      spell_req (spells_word hcomputed) <| spell_req (spells_bool _) <|
                        spell_req (spells_word hdelay) <|
                          spell_opt (spells_nullable_text _) spell_none)

/-! ### Rows -/

namespace Row

variable {row : Row}

lemma Sized.spells_validator {r : ValidatorRecord} (h : (validator r).Sized) :
    ValidatorRecord.codec.Spells r :=
  have hreward := h.integers r.reward List.mem_cons_self
  ValidatorRecord.spells_codec h.words hreward.1 hreward.2

/-- The form of a row has one spelling. -/
theorem Sized.plain (h : row.Sized) : Json.Plain row.encode := by
  cases row with
  | validator r => exact h.spells_validator.plain
  | summary r => exact (EpochSummary.spells_codec h.words).plain
  | duty r => exact (ProposerDuty.spells_codec h.words).plain
  | block r => exact (BlockSummary.spells_codec h.words).plain
  | attestation r => exact (AttestationRecord.spells_codec h.words).plain
  | withdrawal r => exact (WithdrawalRecord.spells_codec h.words).plain

/-- **A row is decoded from its own form as a row of its table.** -/
theorem Sized.decodeAs_encode (h : row.Sized) : decodeAs row.table row.encode = some row := by
  cases row with
  | validator r => exact congrArg (Option.map validator) h.spells_validator.decode
  | summary r => exact congrArg (Option.map summary) (EpochSummary.spells_codec h.words).decode
  | duty r => exact congrArg (Option.map duty) (ProposerDuty.spells_codec h.words).decode
  | block r => exact congrArg (Option.map block) (BlockSummary.spells_codec h.words).decode
  | attestation r =>
    exact congrArg (Option.map attestation) (AttestationRecord.spells_codec h.words).decode
  | withdrawal r =>
    exact congrArg (Option.map withdrawal) (WithdrawalRecord.spells_codec h.words).decode

end Row

end EpochRewards
