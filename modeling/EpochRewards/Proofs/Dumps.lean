import EpochRewards.Proofs.Laws
import EpochRewards.Proofs.Ledgers
import EpochRewards.Snapshot.Format

/-!
Snapshots survive being written down.

The figures of a snapshot are words, and so are the lengths of its bit vectors. A snapshot is
read back from its text if they are, and no other snapshot is ever read. The lookups of the
duties are not written: they are what entering the committees one after another leaves behind.
-/

namespace EpochRewards

open Codec Codec.Fields

/-! ### Figures -/

/-- All these figures are words. -/
def Word.Fit (ns : List Nat) : Prop := ∀ n ∈ ns, n < Word.bound

namespace Word

instance (ns : List Nat) : Decidable (Fit ns) := inferInstanceAs (Decidable (∀ n ∈ ns, n < bound))

@[simp] lemma fit_nil : Fit [] := fun _ h => nomatch h

@[simp] lemma fit_cons {n : Nat} {ns : List Nat} : Fit (n :: ns) ↔ n < bound ∧ Fit ns :=
  List.forall_mem_cons

@[simp] lemma fit_append {ns ms : List Nat} : Fit (ns ++ ms) ↔ Fit ns ∧ Fit ms :=
  List.forall_mem_append

@[simp] lemma fit_flatMap {α : Type} {xs : List α} {f : α → List Nat} :
    Fit (xs.flatMap f) ↔ ∀ a ∈ xs, Fit (f a) := by
  simp only [Fit, List.mem_flatMap]
  exact ⟨fun h a ha n hn => h n ⟨a, ha, hn⟩, fun h n ⟨a, ha, hn⟩ => h a ha n hn⟩

end Word

open Word (Fit)

lemma Codec.lawful_words : word.list.Lawful Fit := lawful_list lawful_word

/-! ### Parts of a snapshot -/

def Checkpoint.words (c : Checkpoint) : List Nat := [c.epoch]

def VoteData.words (d : VoteData) : List Nat :=
  [d.slot, d.index] ++ d.source.words ++ d.target.words

def Attestation.words (a : Attestation) : List Nat := a.bits.length :: a.data.words

def IndexedVote.words (v : IndexedVote) : List Nat := v.indices ++ v.data.words

def AttesterSlashing.words (s : AttesterSlashing) : List Nat := s.first.words ++ s.second.words

def Header.words (h : Header) : List Nat := [h.slot, h.proposer]

def ProposerSlashing.words (s : ProposerSlashing) : List Nat := s.first.words ++ s.second.words

def Withdrawal.words (w : Withdrawal) : List Nat := [w.index, w.validator, w.amount]

def Validator.words (v : Validator) : List Nat :=
  [v.effectiveBalance, v.eligibilityEpoch, v.activationEpoch, v.exitEpoch, v.withdrawableEpoch]

def SyncAggregate.words (a : SyncAggregate) : List Nat := [a.bits.length]

def RewardReport.words (r : RewardReport) : List Nat :=
  [r.total, r.attestations, r.syncAggregate, r.proposerSlashings, r.attesterSlashings]

def Block.words (b : Block) : List Nat :=
  [b.slot, b.proposer] ++ b.attestations.flatMap (·.words) ++
    b.syncAggregate.toList.flatMap (·.words) ++ b.proposerSlashings.flatMap (·.words) ++
    b.attesterSlashings.flatMap (·.words) ++ b.withdrawals.flatMap (·.words) ++
    b.report.toList.flatMap (·.words)

def Committee.words (c : Committee) : List Nat := [c.slot, c.index] ++ c.members

def ProposerSeat.words (p : ProposerSeat) : List Nat := [p.validator, p.slot]

def Duties.words (d : Duties) : List Nat :=
  d.committees.flatMap (·.words) ++ d.proposers.flatMap (·.words)

def Snapshot.words (s : Snapshot) : List Nat :=
  [s.epoch, s.slot] ++ s.validators.flatMap (·.words) ++ s.balances ++
    s.previousJustified.words ++ s.currentJustified.words ++ s.finalized.words ++
    s.blocks.flatMap (·.words) ++ s.duties.words

lemma Checkpoint.lawful_codec : codec.Lawful fun c => Fit c.words :=
  lawful_record (by decide) (fun _ => rfl) (fun _ => rfl)
    (lawful_req lawful_word <| lawful_req Digest.lawful_codec lawful_none)
    fun c => by simp [words]

lemma VoteData.lawful_codec : codec.Lawful fun d => Fit d.words :=
  lawful_record (by decide) (fun _ => rfl) (fun _ => rfl)
    (lawful_req lawful_word <| lawful_req lawful_word <| lawful_req Digest.lawful_codec <|
      lawful_req Checkpoint.lawful_codec <| lawful_req Checkpoint.lawful_codec lawful_none)
    fun d => by simp [words]

lemma Attestation.lawful_codec : codec.Lawful fun a => Fit a.words :=
  lawful_record (by decide) (fun _ => rfl) (fun _ => rfl)
    (lawful_req BitVector.lawful_codec <| lawful_req VoteData.lawful_codec lawful_none)
    fun a => by simp [words, BitVector.length]

lemma IndexedVote.lawful_codec : codec.Lawful fun v => Fit v.words :=
  lawful_record (by decide) (fun _ => rfl) (fun _ => rfl)
    (lawful_req lawful_words <| lawful_req VoteData.lawful_codec lawful_none)
    fun v => by simp [words]

lemma AttesterSlashing.lawful_codec : codec.Lawful fun s => Fit s.words :=
  lawful_record (by decide) (fun _ => rfl) (fun _ => rfl)
    (lawful_req IndexedVote.lawful_codec <| lawful_req IndexedVote.lawful_codec lawful_none)
    fun s => by simp [words]

lemma Header.lawful_codec : codec.Lawful fun h => Fit h.words :=
  lawful_record (by decide) (fun _ => rfl) (fun _ => rfl)
    (lawful_req lawful_word <| lawful_req lawful_word lawful_none)
    fun h => by simp [words]

lemma ProposerSlashing.lawful_codec : codec.Lawful fun s => Fit s.words :=
  lawful_record (by decide) (fun _ => rfl) (fun _ => rfl)
    (lawful_req Header.lawful_codec <| lawful_req Header.lawful_codec lawful_none)
    fun s => by simp [words]

lemma Withdrawal.lawful_codec : codec.Lawful fun w => Fit w.words :=
  lawful_record (by decide) (fun _ => rfl) (fun _ => rfl)
    (lawful_req lawful_word <| lawful_req lawful_word <| lawful_req lawful_word lawful_none)
    fun w => by simp [words]

lemma Validator.lawful_codec : codec.Lawful fun v => Fit v.words :=
  lawful_record (by decide) (fun _ => rfl) (fun _ => rfl)
    (lawful_req Digest.lawful_codec <| lawful_req lawful_word <| lawful_req lawful_bool <|
      lawful_req lawful_word <| lawful_req lawful_word <| lawful_req lawful_word <|
        lawful_req lawful_word lawful_none)
    fun v => by simp [words]

lemma SyncAggregate.lawful_codec : codec.Lawful fun a => Fit a.words :=
  lawful_record (by decide) (fun _ => rfl) (fun _ => rfl)
    (lawful_req BitVector.lawful_codec lawful_none)
    fun a => by simp [words, BitVector.length]

lemma SyncCommittee.lawful_codec : codec.Lawful fun _ => True :=
  lawful_record (by decide) (fun _ => rfl) (fun _ => rfl)
    (lawful_req (lawful_list Digest.lawful_codec) lawful_none)
    fun c => by simp

lemma RewardReport.lawful_codec : codec.Lawful fun r => Fit r.words :=
  lawful_record (by decide) (fun _ => rfl) (fun _ => rfl)
    (lawful_req lawful_word <| lawful_req lawful_word <| lawful_req lawful_word <|
      lawful_req lawful_word <| lawful_req lawful_word lawful_none)
    fun r => by simp [words]

lemma Block.lawful_codec : codec.Lawful fun b => Fit b.words :=
  lawful_record (by decide) (fun _ => rfl) (fun _ => rfl)
    (lawful_req lawful_word <| lawful_req lawful_word <| lawful_req lawful_bool <|
      lawful_dft (lawful_list Attestation.lawful_codec) (by simp) <|
      lawful_dft (lawful_nullable encode_record_ne_null SyncAggregate.lawful_codec) (by simp) <|
      lawful_dft (lawful_list ProposerSlashing.lawful_codec) (by simp) <|
      lawful_dft (lawful_list AttesterSlashing.lawful_codec) (by simp) <|
      lawful_dft (lawful_list Withdrawal.lawful_codec) (by simp) <|
      lawful_dft (lawful_nullable encode_record_ne_null RewardReport.lawful_codec) (by simp)
        lawful_none)
    fun b => by simp [words]

lemma Committee.lawful_codec : codec.Lawful fun c => Fit c.words :=
  lawful_record (by decide) (fun _ => rfl) (fun _ => rfl)
    (lawful_req lawful_word <| lawful_req lawful_word <|
      lawful_req lawful_words lawful_none)
    fun c => by simp [words]

lemma ProposerSeat.lawful_codec : codec.Lawful fun p => Fit p.words :=
  lawful_record (by decide) (fun _ => rfl) (fun _ => rfl)
    (lawful_req lawful_word <| lawful_req lawful_word lawful_none)
    fun p => by simp [words]

lemma Duties.lawful_codec : codec.Lawful fun d => Fit d.words :=
  lawful_record (by decide) (fun _ => rfl) (fun _ => rfl)
    (lawful_req (lawful_list Committee.lawful_codec) <|
      lawful_req (lawful_list ProposerSeat.lawful_codec) lawful_none)
    fun d => by simp [words]

/-- Every figure of a snapshot is a word. -/
def Snapshot.Sized (s : Snapshot) : Prop := Fit s.words

instance (s : Snapshot) : Decidable s.Sized := inferInstanceAs (Decidable (Fit s.words))

lemma Snapshot.lawful_codec : codec.Lawful Sized :=
  lawful_record (by decide) (fun _ => rfl) (fun _ => rfl)
    (lawful_req lawful_word <| lawful_req lawful_word <| lawful_req Digest.lawful_codec <|
      lawful_req (lawful_list Validator.lawful_codec) <| lawful_req lawful_words <|
      lawful_req (lawful_list Digest.lawful_codec) <| lawful_req Checkpoint.lawful_codec <|
      lawful_req Checkpoint.lawful_codec <| lawful_req Checkpoint.lawful_codec <|
      lawful_dft (lawful_nullable encode_record_ne_null SyncCommittee.lawful_codec) (by simp) <|
      lawful_dft (lawful_list Block.lawful_codec) (by simp) <|
      lawful_dft Duties.lawful_codec (by decide) lawful_none)
    fun s => by simp [Sized, words]

/-! ### Lookups -/

namespace Duties

/-- The position of the committee of each slot and index, as entering the committees of a list
one after another leaves it. -/
def positions (cs : List Committee) : Slot × Nat → Option Nat :=
  cs.zipIdx.foldl (fun m c => Function.update m (c.1.slot, c.1.index) (some c.2)) fun _ => none

/-- The members of the committee whose position was entered for a slot and an index. -/
def enteredMembers? (d : Duties) (slot : Slot) (index : Nat) : Option (List ValidatorIndex) := do
  let position ← positions d.committees (slot, index)
  let c ← d.committees[position]?
  return c.members

/-- The slots in which the validators vote, as entering the members of the committees one after
another leaves them. -/
def voteSlots (d : Duties) : Ledger Slot :=
  Ledger.ofList (d.committees.flatMap fun c => c.members.map (·, c.slot))

lemma positions_concat (cs : List Committee) (c : Committee) :
    positions (cs ++ [c])
      = Function.update (positions cs) (c.slot, c.index) (some cs.length) := by
  simp [positions, List.zipIdx_append]

lemma lt_of_positions {cs : List Committee} {key : Slot × Nat} {i : Nat}
    (h : positions cs key = some i) : i < cs.length := by
  induction cs using List.reverseRecOn with
  | nil => cases h
  | append_singleton cs c ih =>
    rw [positions_concat, Function.update_apply] at h
    rw [List.length_append, List.length_singleton]
    split at h
    · cases h
      exact Nat.lt_succ_self _
    · exact Nat.lt_succ_of_lt (ih h)

/-- The position that is left for a slot and an index is that of the last such committee. -/
lemma getElem?_positions (cs : List Committee) (slot : Slot) (index : Nat) :
    ((positions cs (slot, index)).bind fun i => cs[i]?)
      = cs.reverse.find? fun c => c.slot == slot && c.index == index := by
  induction cs using List.reverseRecOn with
  | nil => rfl
  | append_singleton cs c ih =>
    rw [positions_concat, Function.update_apply, List.reverse_concat, List.find?_cons]
    by_cases hc : (slot, index) = (c.slot, c.index)
    · cases hc
      simp
    · have hother : (c.slot == slot && c.index == index) = false := by
        rw [Bool.eq_false_iff, ne_eq, Bool.and_eq_true, beq_iff_eq, beq_iff_eq]
        rintro ⟨rfl, rfl⟩
        exact hc rfl
      rw [if_neg hc, hother, ← ih]
      cases hposition : positions cs (slot, index) with
      | none => rfl
      | some i => simp [List.getElem?_append_left (lt_of_positions hposition)]

/-- The committee of a slot and an index is the one whose position was entered. -/
theorem members?_eq (d : Duties) (slot : Slot) (index : Nat) :
    d.members? slot index = d.enteredMembers? slot index := by
  rw [members?, ← getElem?_positions, enteredMembers?]
  cases positions d.committees (slot, index) with
  | none => rfl
  | some i => cases hc : d.committees[i]? <;> simp [hc]

/-- The slot in which a validator votes is the one that was entered. -/
theorem voteSlot?_eq (d : Duties) (v : ValidatorIndex) :
    d.voteSlot? v = d.voteSlots.get? v := by
  have hentered : ∀ cs : List Committee,
      (Ledger.ofList (cs.flatMap fun c => c.members.map (·, c.slot))).get? v
        = (cs.reverse.find? fun c => c.members.contains v).map (·.slot) := by
    intro cs
    induction cs using List.reverseRecOn with
    | nil => rfl
    | append_singleton cs c ih =>
      rw [List.flatMap_append, List.flatMap_singleton, Ledger.ofList, List.foldl_append,
        Ledger.get?_foldl_const, List.reverse_concat, List.find?_cons]
      by_cases hv : v ∈ c.members
      · simp [hv]
      · simpa [hv, Ledger.ofList] using ih
  exact (hentered d.committees).symm

end Duties

/-! ### Snapshots -/

namespace Snapshot

/-- A snapshot is what its text stands for, and so are the lookups of its duties. -/
structure Survives (s : Snapshot) : Prop where
  state : codec.ofText? (codec.textOf s) = some s
  members : ∀ t ∈ codec.ofText? (codec.textOf s), ∀ slot index,
    t.duties.members? slot index = s.duties.enteredMembers? slot index
  voteSlots : ∀ t ∈ codec.ofText? (codec.textOf s), ∀ v,
    t.duties.voteSlot? v = s.duties.voteSlots.get? v

lemma survives_of_state {s : Snapshot} (h : codec.ofText? (codec.textOf s) = some s) :
    s.Survives where
  state := h
  members t ht slot index := by
    cases Option.some.inj (h.symm.trans ht)
    exact s.duties.members?_eq slot index
  voteSlots t ht v := by
    cases Option.some.inj (h.symm.trans ht)
    exact s.duties.voteSlot?_eq v

/-- **Snapshots survive being written down**: those whose figures are words, and whatever was
read from any text, with the defaults of its missing members. -/
theorem survives_dump :
    (∀ s : Snapshot, s.Sized → s.Survives) ∧
      ∀ text s, codec.ofText? text = some s → s.Survives :=
  ⟨fun s hs => survives_of_state (lawful_codec.spells s hs).ofText?_textOf,
    fun _ _ hread => survives_of_state (lawful_codec.rewritten hread)⟩

/-- A snapshot with a vote whose bits start inside a byte and end in another, and with two
committees of one slot and index. -/
def dumped : Snapshot :=
  { placeholder Word.max 7 with
    stateRoot := .ones
    balances := [Word.max, 0]
    syncCommittee := some ⟨[.ofNat 48 5]⟩
    blocks :=
      [{ Block.missed 7 1 with
          attestations := [⟨⟨⟨3, by decide⟩, [true, false, true, true, false, true, true]⟩,
            ⟨6, 0, .ones, ⟨0, .zero⟩, ⟨1, .ones⟩⟩⟩]
          syncAggregate := some ⟨⟨⟨7, by decide⟩, [true, true]⟩⟩
          proposerSlashings := [⟨⟨7, 1⟩, ⟨7, 1⟩⟩]
          withdrawals := [⟨0, 1, Word.max⟩]
          report := some ⟨3, 1, 1, 0, 1⟩ }]
    duties := ⟨[⟨6, 0, [0, 1]⟩, ⟨6, 0, [1, 2]⟩], [⟨1, 7⟩]⟩ }

/-- The placeholder of an epoch as a list of values that ends before the last three fields. -/
def terse : Json :=
  let root := Root.codec.encode .zero
  .arr [.nat 1, .nat 7, root, .arr [], .arr [], .arr [], .arr [.nat 0, root],
    .arr [.nat 0, root], .arr [.nat 0, root]]

lemma plain_terse : Json.Plain terse := by
  have hroot : Json.Plain (Root.codec.encode .zero) := (Digest.spells_codec _).plain
  have hempty : Json.Plain (.arr []) := .arr nofun
  have hnat {n : Nat} (hn : n < 8) : Json.Plain (.nat n) := .nat (Nat.lt_trans hn (by decide))
  have hcheckpoint : Json.Plain (.arr [.nat 0, Root.codec.encode .zero]) := by
    refine .arr ?_
    simp [hroot, hnat]
  refine .arr ?_
  simp [hroot, hempty, hnat, hcheckpoint]

lemma ofText?_terse : codec.ofText? terse.write = some (placeholder 1 7) := by
  have hparse : Json.parse terse.write = some terse := by
    rw [Json.parse, Json.write, String.toList_ofList, Json.parseChars_render plain_terse]
  have hroot : Root.codec.decode (Root.codec.encode .zero) = some .zero :=
    (Digest.spells_codec _).decode
  have hnat {n : Nat} (hn : n < 8) : word.decode (.nat n) = some n :=
    if_pos (Nat.lt_trans hn (by decide))
  have hcheckpoint : Checkpoint.codec.decode (.arr [.nat 0, Root.codec.encode .zero])
      = some ⟨0, .zero⟩ := by
    simp [Checkpoint.codec, record, fields, mapped, cells?, req, cons, Fields.none, hroot, hnat]
  rw [ofText?, hparse]
  simp [codec, terse, record, fields, mapped, cells?, req, dft, cons, Fields.none, hroot, hnat,
    hcheckpoint]
  rfl

theorem survives_dumped : dumped.Survives ∧ (placeholder 1 7).Survives :=
  ⟨survives_dump.1 dumped (by decide), survives_dump.2 terse.write (placeholder 1 7) ofText?_terse⟩

end Snapshot

end EpochRewards
