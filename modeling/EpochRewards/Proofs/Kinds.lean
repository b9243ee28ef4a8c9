import EpochRewards.Proofs.Lines

/-!
A row shows its kind.

A row carries no tag, so its kind is told from the names of its members: every other kind has a
field that must be there and that the row has no member for. A field that is missing spoils a
record wherever it stands among the fields, whatever the fields before it hold.
-/

namespace EpochRewards

/-! ### Objects -/

namespace Json

/-- The names of the members of an object. -/
def names : Json → List String
  | .obj members => members.map (·.1)
  | _ => []

lemma readableItems_of_forall {items : List Json} (h : ∀ j ∈ items, j.readable = true) :
    readableItems items = true := by
  induction items with
  | nil => rfl
  | cons j items ih =>
    obtain ⟨hj, hitems⟩ := List.forall_mem_cons.1 h
    rw [readableItems, hj, ih hitems]
    rfl

lemma readableMembers_of_forall {members : List (String × Json)}
    (h : ∀ m ∈ members, m.2.readable = true) : readableMembers members = true := by
  induction members with
  | nil => rfl
  | cons m members ih =>
    obtain ⟨hm, hmembers⟩ := List.forall_mem_cons.1 h
    rw [readableMembers, hm, ih hmembers]
    rfl

/-- A value with one spelling has no unreadable part. -/
lemma Plain.readable {j : Json} (h : Plain j) : j.readable = true := by
  induction h with
  | arr _ ih =>
    rw [Json.readable]
    exact readableItems_of_forall ih
  | obj _ ih =>
    rw [Json.readable]
    exact readableMembers_of_forall ih
  | _ => rfl

lemma depthItems_le {k : Nat} {items : List Json} (h : ∀ j ∈ items, j.depth ≤ k) :
    depthItems items ≤ k := by
  induction items with
  | nil => exact Nat.zero_le k
  | cons j items ih =>
    obtain ⟨hj, hitems⟩ := List.forall_mem_cons.1 h
    exact Nat.max_le.2 ⟨hj, ih hitems⟩

lemma depthMembers_le {k : Nat} {members : List (String × Json)}
    (h : ∀ m ∈ members, m.2.depth ≤ k) : depthMembers members ≤ k := by
  induction members with
  | nil => exact Nat.zero_le k
  | cons m members ih =>
    obtain ⟨hm, hmembers⟩ := List.forall_mem_cons.1 h
    exact Nat.max_le.2 ⟨hm, ih hmembers⟩

end Json

namespace Codec

variable {α β : Type}

namespace Fields

variable {name needed : String} {c : Codec α} {missing : Cell → Option α} {rest : Fields β}

/-- Members among which that name is missing stand for no values of the fields. -/
def Needs (fs : Fields β) (needed : String) : Prop :=
  ∀ members : List (String × Json), needed ∉ members.map (·.1) →
    fs.names.mapM (cell? members) >>= fs.decode = Option.none

lemma cell?_absent {members : List (String × Json)} (h : needed ∉ members.map (·.1)) :
    cell? members needed = some .absent := by
  have hnone : ∀ m ∈ members, m.1 ≠ needed :=
    fun m hm he => h (he ▸ List.mem_map_of_mem hm)
  rw [cell?, filter_name_eq_nil hnone]

lemma needs_req : (req name c rest).Needs name := by
  intro members h
  simp only [req, cons, List.mapM_cons, cell?_absent h]
  cases rest.names.mapM (cell? members) <;> rfl

lemma needs_cons (h : rest.Needs needed) : (cons name c missing rest).Needs needed := by
  intro members hmissing
  have hrest := h members hmissing
  simp only [cons, List.mapM_cons]
  cases cell? members name with
  | none => rfl
  | some cell =>
    cases hcells : rest.names.mapM (cell? members) with
    | none => rfl
    | some cells =>
      have hcut : rest.decode cells = Option.none := by rwa [hcells] at hrest
      cases cell <;> simp [hcut]

end Fields

/-- A codec whose values are not decoded from an object without a member of that name. -/
def Needs (c : Codec α) (needed : String) : Prop :=
  ∀ members : List (String × Json), needed ∉ members.map (·.1) → c.decode (.obj members) = none

lemma needs_record {strict : Bool} {fs : Fields β} {form : α → β} {of : β → α} {needed : String}
    (h : fs.Needs needed) : (record strict fs form of).Needs needed := by
  intro members hmissing
  show (cells? fs.names strict (.obj members) >>= fs.decode) >>= (fun b => some (of b)) = none
  rw [cells?]
  split
  · rfl
  · rw [h members hmissing]
    rfl

end Codec

open Codec Codec.Fields

/-- A name that the rows of the first table need and those of the second do not have. -/
def Table.telltale : Table → Table → String
  | .validatorRewards, _ => "validator_balance"
  | .epochSummary, _ => "attesting_validators"
  | .proposerDuties, .blocks => "validator_index"
  | .proposerDuties, _ => "proposed"
  | .blocks, _ => "proposer_index"
  | .attestations, _ => "attestation_slot"
  | .withdrawals, _ => "amount"

namespace Row

variable {row : Row}

/-- Each kind of row has a field that a row of any other kind lacks. -/
lemma telltale_not_mem {t : Table} (h : t ≠ row.table) :
    t.telltale row.table ∉ row.encode.names := by
  cases row <;> cases t <;>
    first
    | exact absurd rfl h
    | exact of_decide_eq_true rfl

/-- An object without the telltale of a table is no row of it. -/
lemma decodeAs_eq_none {t other : Table} {members : List (String × Json)}
    (h : t.telltale other ∉ members.map (·.1)) : decodeAs t (.obj members) = Option.none := by
  cases t with
  | validatorRewards =>
    have hneeds : ValidatorRecord.codec.Needs "validator_balance" :=
      needs_record <| needs_cons <| needs_cons <| needs_cons needs_req
    exact congrArg (Option.map validator) (hneeds members h)
  | epochSummary =>
    have hneeds : EpochSummary.codec.Needs "attesting_validators" :=
      needs_record <| needs_cons <| needs_cons <| needs_cons needs_req
    exact congrArg (Option.map summary) (hneeds members h)
  | proposerDuties =>
    have hvalidator : ProposerDuty.codec.Needs "validator_index" := needs_record needs_req
    have hproposed : ProposerDuty.codec.Needs "proposed" :=
      needs_record <| needs_cons <| needs_cons needs_req
    cases other with
    | blocks => exact congrArg (Option.map duty) (hvalidator members h)
    | _ => exact congrArg (Option.map duty) (hproposed members h)
  | blocks =>
    have hneeds : BlockSummary.codec.Needs "proposer_index" :=
      needs_record <| needs_cons <| needs_cons needs_req
    exact congrArg (Option.map block) (hneeds members h)
  | attestations =>
    have hneeds : AttestationRecord.codec.Needs "attestation_slot" :=
      needs_record <| needs_cons <| needs_cons needs_req
    exact congrArg (Option.map attestation) (hneeds members h)
  | withdrawals =>
    have hneeds : WithdrawalRecord.codec.Needs "amount" :=
      needs_record <| needs_cons <| needs_cons <| needs_cons <| needs_cons needs_req
    exact congrArg (Option.map withdrawal) (hneeds members h)

/-- A row is taken for no other kind than its own, whatever its figures. -/
lemma decodeAs_encode_eq_none {t : Table} (h : t ≠ row.table) :
    decodeAs t row.encode = Option.none := by
  obtain ⟨members, hmembers⟩ : ∃ members, row.encode = .obj members := by
    cases row <;> exact ⟨_, rfl⟩
  have htelltale := telltale_not_mem h
  rw [hmembers] at htelltale ⊢
  exact decodeAs_eq_none htelltale

end Row

/-! ### Depth -/

namespace Codec

variable {α β : Type} {c : Codec α} {k : Nat}

@[simp] lemma depth_word (n : Nat) : (word.encode n).depth = 0 := rfl

@[simp] lemma depth_bool (b : Bool) : (bool.encode b).depth = 0 := rfl

@[simp] lemma depth_int (i : Int) : (int.encode i).depth = 0 := by cases i <;> rfl

@[simp] lemma depth_text (s : String) : (text.encode s).depth = 0 := rfl

@[simp] lemma depth_named (name : α → String) (ofName? : String → Option α) (a : α) :
    ((named name ofName?).encode a).depth = 0 := rfl

lemma depth_nullable_le (h : ∀ a, (c.encode a).depth ≤ k) (x : Option α) :
    (c.nullable.encode x).depth ≤ k := by
  cases x with
  | none => exact Nat.zero_le k
  | some a => exact h a

lemma depth_list_le (h : ∀ a, (c.encode a).depth ≤ k) (xs : List α) :
    (c.list.encode xs).depth ≤ k + 1 := by
  refine Nat.succ_le_succ (Json.depthItems_le fun j hj => ?_)
  obtain ⟨a, -, rfl⟩ := List.mem_map.1 hj
  exact h a

lemma depth_record_le {strict : Bool} {fs : Fields β} {form : α → β} {of : β → α} {a : α}
    (h : ∀ j ∈ fs.encode (form a), j.depth ≤ k) :
    ((record strict fs form of).encode a).depth ≤ k + 1 :=
  Nat.succ_le_succ (Json.depthMembers_le fun m hm => h m.2 (List.of_mem_zip hm).2)

end Codec

namespace Row

variable {row : Row}

/-- A row is nested nowhere near as deep as an untagged value may be. -/
lemma depth_encode_le (row : Row) : row.encode.depth ≤ maxDepth := by
  have hword : ∀ x : Option Nat, (word.nullable.encode x).depth ≤ 126 :=
    depth_nullable_le fun n => Nat.zero_le _
  cases row with
  | validator r =>
    have hpool := depth_nullable_le (c := text) (fun s => Nat.zero_le 126) r.pool
    refine depth_record_le ?_
    simp [req, opt, cons, Fields.none, ValidatorStatus.codec, hword, hpool]
  | summary r =>
    have hmissed := depth_list_le (c := word) (fun n => Nat.zero_le 125) r.missedSlots
    refine depth_record_le ?_
    simp [req, cons, Fields.none, hmissed]
  | duty r =>
    refine depth_record_le ?_
    simp [req, cons, Fields.none]
  | block r =>
    refine depth_record_le ?_
    simp [req, opt, cons, Fields.none, hword]
  | attestation r =>
    refine depth_record_le ?_
    simp [req, cons, Fields.none, Digest.codec]
  | withdrawal r =>
    refine depth_record_le ?_
    simp [req, cons, Fields.none]

/-! ### Untagged rows -/

lemma findSome?_of_only {α β : Type} {f : α → Option β} {a : α} {b : β} {xs : List α}
    (ha : a ∈ xs) (hf : f a = some b) (honly : ∀ x ≠ a, f x = Option.none) :
    xs.findSome? f = some b := by
  induction xs with
  | nil => cases ha
  | cons x xs ih =>
    rw [List.findSome?_cons]
    by_cases hx : x = a
    · rw [hx, hf]
    · rw [honly x hx]
      exact ih ((List.mem_cons.1 ha).resolve_left (Ne.symm hx))

lemma Sized.decode_encode (h : row.Sized) : decode row.encode = some row := by
  have hmem : row.table ∈ Table.all := by cases row <;> exact of_decide_eq_true rfl
  have hopen : (row.encode.readable && decide (row.encode.depth ≤ maxDepth)) = true := by
    rw [h.plain.readable, decide_eq_true row.depth_encode_le]
    rfl
  rw [decode, if_pos hopen]
  exact findSome?_of_only hmem h.decodeAs_encode fun t ht => decodeAs_encode_eq_none ht

/-- The text of a row tells which row it is, with or without the table it belongs to. -/
structure ToldByText (row : Row) : Prop where
  untagged : codec.ofText? (codec.textOf row) = some row
  line : FileStore.parseRow row.table (codec.textOf row).toList = some row
  /-- no other kind of row can be made of it, an earlier one least of all -/
  only : ∀ t ≠ row.table, FileStore.parseRow t (codec.textOf row).toList = Option.none

/-- **A row of any kind is read back from its text, although no tag says which kind it is.** -/
theorem Sized.toldByText (h : row.Sized) : row.ToldByText where
  untagged := Spells.ofText?_textOf ⟨h.decode_encode, h.plain⟩
  line := by
    rw [textOf, Json.write, String.toList_ofList]
    exact FileStore.parseRow_render h
  only t ht := by
    rw [textOf, Json.write, String.toList_ofList, FileStore.parseRow]
    show Json.parseChars row.encode.render >>= decodeAs t = Option.none
    rw [Json.parseChars_render h.plain]
    exact decodeAs_encode_eq_none ht

/-- A record at the limits of its figures, with a reward that has no positive counterpart. -/
def extremeRecord : ValidatorRecord where
  validator := Word.max
  epoch := 0
  slot := Word.max
  balance := Word.max
  reward := -(Word.signedBound : Int)
  maxReward := Word.max
  attestationReward := 0
  syncReward := Word.max
  proposerReward := 0
  slashingReward := 0
  baseReward := 1
  missingSource := true
  missingTarget := false
  missingHead := true
  status := .slashed
  reportedProposerReward := Option.none
  computedProposerReward := Word.max
  inSyncCommittee := false
  inclusionDelay := Word.max
  pool := some "\"north\" \\ \n"

/-- A withdrawal at the limits. Every other kind of row is tried on its text before its own. -/
def extremeWithdrawal : WithdrawalRecord where
  epoch := Word.max
  slot := 0
  index := Word.max
  validator := Word.max
  amount := Word.max

theorem toldByText_extremeRows :
    (withdrawal extremeWithdrawal).ToldByText ∧ (validator extremeRecord).ToldByText :=
  ⟨Sized.toldByText (by decide), Sized.toldByText (by decide)⟩

end Row

end EpochRewards
