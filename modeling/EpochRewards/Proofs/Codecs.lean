import EpochRewards.Digest
import EpochRewards.Proofs.Texts
import Mathlib.Tactic.Ring

/-!
Values are decoded from their own forms.

Each codec reads back what it encodes of the values that it is for, and what it encodes has one
spelling. Records do if their fields do and no two of them share a name.
-/

namespace EpochRewards

open Json (Plain)

namespace Codec

variable {α β : Type}

/-- A value has a form with one spelling, from which it is decoded. -/
structure Spells (c : Codec α) (a : α) : Prop where
  decode : c.decode (c.encode a) = some a
  plain : Plain (c.encode a)

/-- The text of a value. -/
def textOf (c : Codec α) (a : α) : String := (c.encode a).write

/-- The value that a text stands for. -/
def ofText? (c : Codec α) (text : String) : Option α := Json.parse text >>= c.decode

lemma Spells.ofText?_textOf {c : Codec α} {a : α} (h : c.Spells a) :
    c.ofText? (c.textOf a) = some a := by
  rw [ofText?, textOf, Json.parse, Json.write, String.toList_ofList,
    Json.parseChars_render h.plain]
  exact h.decode

lemma spells_bool (b : Bool) : bool.Spells b := ⟨rfl, .bool b⟩

lemma spells_below {bound n : Nat} (hb : bound ≤ Word.bound) (h : n < bound) :
    (below bound).Spells n :=
  ⟨if_pos h, .nat (Nat.lt_of_lt_of_le h hb)⟩

lemma spells_word {n : Nat} (h : n < Word.bound) : word.Spells n := spells_below (Nat.le_refl _) h

lemma spells_int {i : Int} (hlow : -(Word.signedBound : Int) ≤ i) (hhigh : i < Word.signedBound) :
    int.Spells i := by
  cases i with
  | ofNat n =>
    have hn : n < Word.signedBound := Int.ofNat_lt.1 hhigh
    exact ⟨if_pos hn, .nat (Nat.lt_trans hn (by decide))⟩
  | negSucc n =>
    have hn : n + 1 ≤ Word.signedBound := by
      rw [Int.negSucc_eq] at hlow
      omega
    exact ⟨if_pos hn, .neg (Nat.succ_pos n) hn⟩

lemma spells_text (s : String) : text.Spells s := ⟨rfl, .str s⟩

lemma spells_named {name : α → String} {ofName? : String → Option α} {a : α}
    (h : ofName? (name a) = some a) : (named name ofName?).Spells a :=
  ⟨h, .str (name a)⟩

lemma spells_list {c : Codec α} {xs : List α} (h : ∀ a ∈ xs, c.Spells a) : c.list.Spells xs where
  decode := by
    show (xs.map c.encode).mapM c.decode = some xs
    induction xs with
    | nil => rfl
    | cons a xs ih =>
      have ha := (h a List.mem_cons_self).decode
      have hrest := ih fun b hb => h b (List.mem_cons_of_mem _ hb)
      simp [ha, hrest]
  plain := by
    refine .arr fun j hj => ?_
    obtain ⟨a, ha, rfl⟩ := List.mem_map.1 hj
    exact (h a ha).plain

/-- A value is told from its absence, since its own form is not `null`. -/
lemma spells_nullable {c : Codec α} (hnull : ∀ a, c.encode a ≠ .null) {x : Option α}
    (h : ∀ a ∈ x, c.Spells a) : c.nullable.Spells x := by
  cases x with
  | none => exact ⟨rfl, .null⟩
  | some a =>
    have ha := h a rfl
    refine ⟨?_, ha.plain⟩
    simp only [nullable]
    split
    · next heq => exact absurd heq (hnull a)
    · rw [ha.decode]
      rfl

lemma spells_mapped {c : Codec α} {form : β → α} {of : α → Option β} {b : β}
    (hof : of (form b) = some b) (h : c.Spells (form b)) : (c.mapped form of).Spells b := by
  refine ⟨?_, h.plain⟩
  show c.decode (c.encode (form b)) >>= of = some b
  rw [h.decode]
  exact hof

/-! ### Records -/

/-- The fields of a record are decoded from their own forms, one for each name. -/
structure Fields.Spell (fs : Fields β) (b : β) : Prop where
  length : (fs.encode b).length = fs.names.length
  decode : fs.decode ((fs.encode b).map .given) = some b
  plain : ∀ j ∈ fs.encode b, Plain j

namespace Fields

variable {name : String} {c : Codec α} {rest : Fields β} {a : α} {b : β}

lemma spell_none : none.Spell () := ⟨rfl, rfl, fun _ h => nomatch h⟩

lemma spell_cons {missing : Cell → Option α} (ha : c.Spells a) (hb : rest.Spell b) :
    (cons name c missing rest).Spell (a, b) where
  length := congrArg (· + 1) hb.length
  decode := by
    show (do return (← c.decode (c.encode a), ← rest.decode ((rest.encode b).map .given))) = _
    rw [ha.decode, hb.decode]
    rfl
  plain := List.forall_mem_cons.2 ⟨ha.plain, hb.plain⟩

lemma spell_req (ha : c.Spells a) (hb : rest.Spell b) : (req name c rest).Spell (a, b) :=
  spell_cons ha hb

lemma spell_opt {x : Option α} (hx : c.nullable.Spells x) (hb : rest.Spell b) :
    (opt name c rest).Spell (x, b) :=
  spell_cons hx hb

end Fields

lemma filter_name_eq_nil {ms : List (String × Json)} {name : String} (h : ∀ m ∈ ms, m.1 ≠ name) :
    ms.filter (·.1 == name) = [] := by
  simpa [List.filter_eq_nil_iff] using h

/-- A record whose names are all different gives each field its own cell. -/
lemma cells_zip {names : List String} {js : List Json} (hn : names.Nodup)
    (hl : js.length = names.length) :
    names.mapM (cell? (names.zip js)) = some (js.map .given) := by
  have hcells : ∀ before : List (String × Json), (∀ m ∈ before, m.1 ∉ names) →
      names.mapM (cell? (before ++ names.zip js)) = some (js.map .given) := by
    induction names generalizing js with
    | nil =>
      intro before _
      cases js with
      | nil => rfl
      | cons => cases hl
    | cons name names ih =>
      intro before hbefore
      cases js with
      | nil => cases hl
      | cons j js =>
        obtain ⟨hname, hn⟩ := List.nodup_cons.1 hn
        have hfront : before.filter (·.1 == name) = [] :=
          filter_name_eq_nil fun m hm he => hbefore m hm (he ▸ List.mem_cons_self)
        have hback : (names.zip js).filter (·.1 == name) = [] :=
          filter_name_eq_nil fun m hm he => hname (he ▸ (List.of_mem_zip hm).1)
        have hcell : cell? (before ++ (name, j) :: names.zip js) name = some (.given j) := by
          rw [cell?, List.filter_append, hfront, List.filter_cons, if_pos (beq_self_eq_true name),
            hback]
          rfl
        have hrest := ih hn (Nat.succ.inj hl) (before ++ [(name, j)]) fun m hm => by
          rcases List.mem_append.1 hm with hm | hm
          · exact fun hmem => hbefore m hm (List.mem_cons_of_mem _ hmem)
          · rw [List.mem_singleton.1 hm]
            exact hname
        rw [List.append_assoc, List.singleton_append] at hrest
        simp [hcell, hrest]
  simpa using hcells [] (by simp)

/-- The values of fields are decoded from their own object if each of them is. -/
lemma spells_fields {strict : Bool} {fs : Fields β} {b : β} (hn : fs.names.Nodup)
    (h : fs.Spell b) : (fields strict fs).Spells b where
  decode := by
    have hnames : (fs.names.zip (fs.encode b)).all (fun m => fs.names.contains m.1) = true := by
      refine List.all_eq_true.2 fun m hm => ?_
      simpa using (List.of_mem_zip hm).1
    show cells? fs.names strict (.obj (fs.names.zip (fs.encode b))) >>= fs.decode = _
    rw [cells?, hnames, Bool.not_true, Bool.and_false, if_neg Bool.false_ne_true,
      cells_zip hn h.length]
    exact h.decode
  plain := .obj fun m hm => h.plain m.2 (List.of_mem_zip hm).2

/-- A record is decoded from its own form if its fields are. -/
theorem spells_record {strict : Bool} {fs : Fields β} {form : α → β} {of : β → α} {a : α}
    (hof : of (form a) = a) (hn : fs.names.Nodup) (h : fs.Spell (form a)) :
    (record strict fs form of).Spells a :=
  spells_mapped (congrArg some hof) (spells_fields hn h)

end Codec

/-! ### Digests -/

namespace Digest

variable {width : Nat}

/-- The values of the `k` lowest hexadecimal digits of `n`, highest first. -/
def nibbles (n : Nat) : Nat → List Nat
  | 0 => []
  | k + 1 => n >>> (4 * k) % 16 :: nibbles n k

lemma length_hexDigits (n k : Nat) : (hexDigits n k).length = k := by
  induction k with
  | zero => rfl
  | succ k ih => rw [hexDigits, List.length_cons, ih]

lemma length_nibbles (n k : Nat) : (nibbles n k).length = k := by
  induction k with
  | zero => rfl
  | succ k ih => rw [nibbles, List.length_cons, ih]

lemma not_isBlank_hexChar {n : Nat} (h : n < 16) : Json.isBlank (Json.hexChar n) = false := by
  interval_cases n <;> decide

lemma digits?_hexDigits (n k : Nat) : digits? (hexDigits n k) = some (nibbles n k) := by
  induction k with
  | zero => rfl
  | succ k ih =>
    have hsmall : n >>> (4 * k) % 16 < 16 := Nat.mod_lt _ (by decide)
    rw [hexDigits, digits?, not_isBlank_hexChar hsmall, Json.hexDigit?_hexChar hsmall, ih]
    rfl

/-- The lowest digits make up the number that is left of a power of sixteen. -/
lemma foldl_nibbles (n k a : Nat) :
    (nibbles n k).foldl (fun m d => m * 16 + d) a = a * 16 ^ k + n % 16 ^ k := by
  induction k generalizing a with
  | zero => simp [nibbles, Nat.mod_one]
  | succ k ih =>
    have hshift : n >>> (4 * k) = n / 16 ^ k := by
      rw [Nat.shiftRight_eq_div_pow, Nat.pow_mul]
    rw [nibbles, List.foldl_cons, ih, hshift, Nat.mod_pow_succ, Nat.pow_succ]
    ring

lemma fill_nibbles {n : Nat} (h : n < 2 ^ (8 * width)) :
    fill width (nibbles n (2 * width)) = n := by
  have hpow : 16 ^ (2 * width) = 2 ^ (8 * width) :=
    calc 16 ^ (2 * width) = 2 ^ (4 * (2 * width)) := (Nat.pow_mul 2 4 _).symm
      _ = 2 ^ (8 * width) := by rw [← Nat.mul_assoc]
  have hhalf : 2 * width / 2 = width := Nat.mul_div_cancel_left width (by decide)
  simp only [fill, length_nibbles, hhalf, Nat.sub_self, Nat.mul_zero, Nat.shiftLeft_zero]
  rw [List.take_of_length_le (Nat.le_of_eq (length_nibbles n _)), foldl_nibbles, hpow,
    Nat.mod_eq_of_lt h, Nat.zero_mul, Nat.zero_add]

/-- The text of a digest stands for it. -/
lemma ofText?_toText (d : Digest width) : ofText? width (toText d) = some d := by
  have hlength := length_hexDigits d.val.toNat (2 * width)
  have hdigit : ofNat width d.val.toNat = d := by
    cases d
    simp [ofNat]
  rw [ofText?, toText, String.toList_ofList]
  show (if (hexDigits d.val.toNat (2 * width)).length = 2 * width
    then (digits? (hexDigits d.val.toNat (2 * width))).map fun ds => ofNat width (fill width ds)
    else none) = some d
  rw [if_pos hlength, digits?_hexDigits, Option.map_some, fill_nibbles d.val.isLt, hdigit]

lemma spells_codec (d : Digest width) : (codec width).Spells d :=
  Codec.spells_named (ofText?_toText d)

end Digest

end EpochRewards
