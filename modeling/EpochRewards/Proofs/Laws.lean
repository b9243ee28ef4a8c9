import EpochRewards.BitVector
import EpochRewards.Proofs.Codecs

/-!
Codecs and the values they are for.

A codec is lawful for a set of values if it reads back each of them and reads nothing else. Then
what was read from any text, with its defaults filled in, is written in a form that is read as
the same value again. Lawful codecs are put together to lawful ones.
-/

namespace EpochRewards

namespace Codec

variable {α β : Type} {c : Codec α} {p : α → Prop}

/-- The values that a codec reads are those that it spells. -/
structure Lawful (c : Codec α) (p : α → Prop) : Prop where
  spells : ∀ a, p a → c.Spells a
  only : ∀ j a, c.decode j = some a → p a

/-- Whatever was read is read again from the text that it is written in. -/
lemma Lawful.rewritten (h : c.Lawful p) {text : String} {a : α} (ha : c.ofText? text = some a) :
    c.ofText? (c.textOf a) = some a := by
  obtain ⟨j, -, hj⟩ := Option.bind_eq_some_iff.1 ha
  exact (h.spells a (h.only j a hj)).ofText?_textOf

lemma lawful_bool : bool.Lawful fun _ => True := ⟨fun b _ => spells_bool b, fun _ _ _ => trivial⟩

lemma lawful_text : text.Lawful fun _ => True := ⟨fun s _ => spells_text s, fun _ _ _ => trivial⟩

lemma lawful_below {bound : Nat} (hb : bound ≤ Word.bound) : (below bound).Lawful (· < bound) where
  spells _ h := spells_below hb h
  only j n h := by
    cases j with
    | nat m =>
      obtain ⟨hm, heq⟩ := Option.ite_none_right_eq_some.1 h
      cases heq
      exact hm
    | _ => cases h

lemma lawful_word : word.Lawful (· < Word.bound) := lawful_below (Nat.le_refl _)

lemma lawful_byte : byte.Lawful (· < 256) := lawful_below (by decide)

lemma lawful_list (h : c.Lawful p) : c.list.Lawful fun xs => ∀ a ∈ xs, p a where
  spells xs hxs := spells_list fun a ha => h.spells a (hxs a ha)
  only j xs hj := by
    cases j with
    | arr items =>
      have hread : items.mapM c.decode = some xs := hj
      clear hj
      induction items generalizing xs with
      | nil =>
        cases hread
        exact fun a ha => nomatch ha
      | cons j items ih =>
        simp only [List.mapM_cons, Option.bind_eq_bind, Option.bind_eq_some_iff] at hread
        obtain ⟨a, ha, as, has, hxs⟩ := hread
        cases hxs
        exact List.forall_mem_cons.2 ⟨h.only j a ha, ih as has⟩
    | _ => cases hj

lemma lawful_nullable (hnull : ∀ a, c.encode a ≠ .null) (h : c.Lawful p) :
    c.nullable.Lawful fun x => ∀ a ∈ x, p a where
  spells x hx := spells_nullable hnull fun a ha => h.spells a (hx a ha)
  only j x hj := by
    simp only [nullable] at hj
    split at hj
    · cases hj
      exact fun a ha => absurd ha (Option.not_mem_none a)
    · obtain ⟨a, ha, rfl⟩ := Option.map_eq_some_iff.1 hj
      rintro b ⟨⟩
      exact h.only j a ha

/-- The form of a record is an object, and so not the form of no value. -/
lemma encode_record_ne_null {strict : Bool} {fs : Fields β} {form : α → β} {of : β → α} (a : α) :
    (record strict fs form of).encode a ≠ .null :=
  fun h : Json.obj _ = .null => nomatch h

lemma lawful_mapped {q : β → Prop} {form : α → β} {of : β → Option α} {c : Codec β}
    (h : c.Lawful q) (hform : ∀ a, p a → q (form a)) (hread : ∀ a, p a → of (form a) = some a)
    (hof : ∀ b a, q b → of b = some a → p a) : (c.mapped form of).Lawful p where
  spells a ha := spells_mapped (hread a ha) (h.spells (form a) (hform a ha))
  only j a hj := by
    obtain ⟨b, hb, ha⟩ := Option.bind_eq_some_iff.1 hj
    exact hof b a (h.only j b hb) ha

/-! ### Records -/

namespace Fields

variable {name : String} {rest fs : Fields β} {q : β → Prop}

/-- The values of fields are read if they are the ones to be written. -/
structure Lawful (fs : Fields β) (q : β → Prop) : Prop where
  spell : ∀ b, q b → fs.Spell b
  only : ∀ cells b, fs.decode cells = some b → q b

lemma lawful_none : none.Lawful fun _ => True := ⟨fun _ _ => spell_none, fun _ _ _ => trivial⟩

/-- What stands for a missing field is a value of the field too. -/
lemma lawful_cons {missing : Cell → Option α} (h : c.Lawful p)
    (hmissing : ∀ cell a, missing cell = some a → p a) (hrest : rest.Lawful q) :
    (cons name c missing rest).Lawful fun b => p b.1 ∧ q b.2 where
  spell b hb := spell_cons (h.spells b.1 hb.1) (hrest.spell b.2 hb.2)
  only cells b hb := by
    have hparts {x : Option α} {cells : List Cell} (hx : ∀ a, x = some a → p a)
        (hb : (do return (← x, ← rest.decode cells)) = some b) : p b.1 ∧ q b.2 := by
      simp only [Option.bind_eq_bind, Option.bind_eq_some_iff] at hb
      obtain ⟨a, ha, r, hr, heq⟩ := hb
      cases heq
      exact ⟨hx a ha, hrest.only cells r hr⟩
    cases cells with
    | nil => cases hb
    | cons cell cells =>
      cases cell with
      | given j => exact hparts (h.only j) hb
      | absent => exact hparts (hmissing .absent) hb
      | cut => exact hparts (hmissing .cut) hb

lemma lawful_req (h : c.Lawful p) (hrest : rest.Lawful q) :
    (req name c rest).Lawful fun b => p b.1 ∧ q b.2 :=
  lawful_cons h (fun _ _ hnone => nomatch hnone) hrest

lemma lawful_dft {default : α} (h : c.Lawful p) (hdefault : p default) (hrest : rest.Lawful q) :
    (dft name c default rest).Lawful fun b => p b.1 ∧ q b.2 :=
  lawful_cons h (fun _ _ ha => Option.some.inj ha ▸ hdefault) hrest

end Fields

lemma lawful_fields {strict : Bool} {fs : Fields β} {q : β → Prop} (hn : fs.names.Nodup)
    (h : fs.Lawful q) : (fields strict fs).Lawful q where
  spells b hb := spells_fields hn (h.spell b hb)
  only j b hb := by
    obtain ⟨cells, -, hcells⟩ := Option.bind_eq_some_iff.1 hb
    exact h.only cells b hcells

/-- **A record is lawful if its fields are.** -/
theorem lawful_record {strict : Bool} {fs : Fields β} {form : α → β} {of : β → α} {q : β → Prop}
    (hn : fs.names.Nodup) (hof : ∀ a, of (form a) = a) (hform : ∀ b, form (of b) = b)
    (h : fs.Lawful q) (hp : ∀ a, p a ↔ q (form a)) : (record strict fs form of).Lawful p := by
  refine lawful_mapped (lawful_fields hn h) (fun a => (hp a).1)
    (fun a _ => congrArg some (hof a)) fun b a hb ha => ?_
  cases ha
  exact (hp (of b)).2 ((hform b).symm ▸ hb)

end Codec

lemma Digest.lawful_codec {width : Nat} : (codec width).Lawful fun _ => True :=
  ⟨fun d _ => d.spells_codec, fun _ _ _ => trivial⟩

/-! ### Bit vectors -/

namespace BitVector

open Codec Codec.Fields

lemma byteOf_lt (bits : List Bool) : byteOf bits < 2 ^ bits.length := by
  induction bits with
  | nil => decide
  | cons b bits ih =>
    have hb : b.toNat < 2 := Bool.toNat_lt b
    show 2 * byteOf bits + b.toNat < 2 ^ (bits.length + 1)
    omega

lemma testBit_byteOf (bits : List Bool) (i : Nat) :
    (byteOf bits).testBit i = bits[i]?.getD false := by
  induction bits generalizing i with
  | nil => simp [byteOf]
  | cons b bits ih =>
    have hbyte : byteOf (b :: bits) = 2 * byteOf bits + b.toNat := rfl
    cases i with
    | zero => cases b <;> simp [hbyte, Nat.testBit_zero]
    | succ i =>
      have hhalf : byteOf (b :: bits) / 2 = byteOf bits := by
        have hb : b.toNat < 2 := Bool.toNat_lt b
        omega
      rw [Nat.testBit_succ, hhalf, ih, List.getElem?_cons_succ]

/-- A byte holds its bits, the lowest first. -/
lemma prefix_bitsOf {bits : List Bool} (h : bits.length ≤ 8) : bits <+: bitsOf (byteOf bits) := by
  have hlength : (bitsOf (byteOf bits)).length = 8 := by simp [bitsOf]
  rw [List.prefix_iff_eq_take]
  refine List.ext_getElem (by simp [hlength, h]) fun i hi _ => ?_
  simp [bitsOf, testBit_byteOf, hi]

/-- Bytes hold the bits that were packed into them, in order. -/
lemma prefix_packBytes {count : Nat} {bits : List Bool} (h : bits.length ≤ 8 * count) :
    bits <+: (packBytes count bits).flatMap bitsOf := by
  induction count generalizing bits with
  | zero => simpa [packBytes] using h
  | succ count ih =>
    rw [packBytes, List.flatMap_cons]
    have hfirst : bits.take 8 <+: bitsOf (byteOf (bits.take 8)) := prefix_bitsOf (by simp)
    rcases Nat.lt_or_ge bits.length 8 with hshort | hlong
    · rw [List.take_of_length_le (Nat.le_of_lt hshort)] at hfirst ⊢
      exact hfirst.trans (List.prefix_append _ _)
    · have hwhole : bits.take 8 = bitsOf (byteOf (bits.take 8)) :=
        hfirst.eq_of_length (by simp [bitsOf, hlong])
      have hlength : (bits.drop 8).length ≤ 8 * count := by
        rw [List.length_drop]
        omega
      have hrest := ih hlength
      rw [← hwhole]
      calc bits = bits.take 8 ++ bits.drop 8 := (List.take_append_drop 8 bits).symm
        _ <+: _ := (List.prefix_append_right_inj _).2 hrest

lemma length_packBytes (count : Nat) (bits : List Bool) :
    (packBytes count bits).length = count := by
  induction count generalizing bits with
  | zero => rfl
  | succ count ih => rw [packBytes, List.length_cons, ih]

lemma lt_of_mem_packBytes {count n : Nat} {bits : List Bool} (h : n ∈ packBytes count bits) :
    n < 256 := by
  induction count generalizing bits with
  | zero => cases h
  | succ count ih =>
    rcases List.mem_cons.1 h with rfl | h
    · have hlength : (bits.take 8).length ≤ 8 := by simp
      exact Nat.lt_of_lt_of_le (byteOf_lt _) (Nat.pow_le_pow_right (by decide) hlength)
    · exact ih h

/-- The bytes of a vector stand for it, wherever it starts in the first of them. -/
lemma ofBytes?_toBytes (v : BitVector) : ofBytes? v.head v.bits.length v.toBytes = some v := by
  have hroom : v.head + v.bits.length ≤ 8 * ((v.head + v.bits.length + 7) / 8) := by omega
  obtain ⟨tail, htail⟩ : List.replicate v.head false ++ v.bits <+: v.toBytes.flatMap bitsOf :=
    prefix_packBytes (by simpa using hroom)
  have hbits : ((v.toBytes.flatMap bitsOf).drop v.head).take v.bits.length = v.bits := by
    rw [← htail, List.append_assoc]
    simp
  rw [ofBytes?, dif_pos v.head.isLt, if_pos, hbits]
  rwa [toBytes, length_packBytes]

lemma length_of_ofBytes? {head length : Nat} {bytes : List Nat} {v : BitVector}
    (h : ofBytes? head length bytes = some v) : v.bits.length = length := by
  rw [ofBytes?] at h
  split at h
  · obtain ⟨hroom, heq⟩ := Option.ite_none_right_eq_some.1 h
    cases heq
    have hbits : (bytes.flatMap bitsOf).length = 8 * bytes.length := by
      simp [List.length_flatMap, bitsOf, Nat.mul_comm]
    simp only [List.length_take, List.length_drop, hbits]
    omega
  · cases h

lemma lawful_headCodec : headCodec.Lawful (· < 256) := by
  refine lawful_mapped (lawful_fields (by decide) <|
    lawful_req lawful_byte <| lawful_req lawful_byte lawful_none) ?_ ?_ ?_
  · exact fun index h => ⟨show 8 < 256 by decide, h, trivial⟩
  · exact fun index _ => rfl
  · rintro ⟨width, index, _⟩ a ⟨-, hindex, -⟩ ha
    obtain ⟨-, heq⟩ := Option.ite_none_right_eq_some.1 ha
    cases heq
    exact hindex

/-- **Bit vectors of any start are read back, and no others are read.** -/
theorem lawful_codec : codec.Lawful fun v => v.bits.length < Word.bound := by
  refine lawful_mapped (lawful_fields (by decide) <| lawful_req lawful_text <|
    lawful_req lawful_headCodec <| lawful_req lawful_word <|
      lawful_req (lawful_list lawful_byte) lawful_none) ?_ ?_ ?_
  · exact fun v hv => ⟨trivial, Nat.lt_trans v.head.isLt (by decide), hv,
      fun n hn => lt_of_mem_packBytes hn, trivial⟩
  · exact fun v _ => (if_pos rfl).trans (ofBytes?_toBytes v)
  · rintro ⟨order, head, length, bytes, _⟩ v ⟨-, -, hlength, -, -⟩ hv
    obtain ⟨-, hread⟩ := Option.ite_none_right_eq_some.1 hv
    rw [length_of_ofBytes? hread]
    exact hlength

end BitVector

end EpochRewards
