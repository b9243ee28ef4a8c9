import EpochRewards.Json.Reader
import EpochRewards.Json.Writer
import Mathlib.Data.List.Basic
import Mathlib.Tactic.Common
import Mathlib.Tactic.IntervalCases

/-!
JSON texts are read as they were written.

What is written holds no blanks and no characters that a reader takes for something else, so
each value is read off the front of a text up to where its spelling ends. A number is the only
value that does not show its end: it has to be followed by what cannot go on with it.
-/

namespace EpochRewards.Json

/-! ### Strings -/

lemma hexDigit?_hexChar {n : Nat} (h : n < 16) : hexDigit? (hexChar n) = some n := by
  interval_cases n <;> decide

lemma hex4?_control {n : Nat} (h : n < 32) :
    hex4? '0' '0' (hexChar (n / 16)) (hexChar (n % 16)) = some n := by
  have hhigh : hexDigit? (hexChar (n / 16)) = some (n / 16) := hexDigit?_hexChar (by omega)
  have hlow : hexDigit? (hexChar (n % 16)) = some (n % 16) := hexDigit?_hexChar (by omega)
  have hzero : hexDigit? '0' = some 0 := by decide
  simp only [hex4?, hzero, hhigh, hlow, Option.pure_def, Option.bind_eq_bind, Option.bind_some,
    Option.some.injEq]
  omega

/-- What is read after an escaped code starts with a code itself. -/
lemma hex4?_of_readChars {a b c d : Char} {rest : List Char} {x : Spelled × List Char}
    (h : readChars ('\\' :: 'u' :: a :: b :: c :: d :: rest) = some x) :
    ∃ n, hex4? a b c d = some n := by
  cases hn : hex4? a b c d with
  | some n => exact ⟨n, rfl⟩
  | none =>
    by_cases hr : ∃ e f g h' more, rest = '\\' :: 'u' :: e :: f :: g :: h' :: more
    · obtain ⟨e, f, g, h', more, rfl⟩ := hr
      rw [readChars.eq_3, hn] at h
      cases h
    · rw [readChars.eq_4 _ _ _ _ _ fun e f g h' more he => hr ⟨e, f, g, h', more, he⟩, hn] at h
      cases h

/-- A code that is no half of a pair stands for itself, whatever follows. -/
lemma readChars_code {a b c d : Char} {n : Nat} {r r' : List Char} {s : List Char}
    (hn : hex4? a b c d = some n) (hsmall : n < 0xD800) (h : readChars r = some (some s, r')) :
    readChars ('\\' :: 'u' :: a :: b :: c :: d :: r) = some (some (Char.ofNat n :: s), r') := by
  have hhigh : isHighSurrogate n = false := by
    simp only [isHighSurrogate, Bool.and_eq_false_iff, decide_eq_false_iff_not]
    omega
  have hlow : isLowSurrogate n = false := by
    simp only [isLowSurrogate, Bool.and_eq_false_iff, decide_eq_false_iff_not]
    omega
  by_cases hr : ∃ e f g h' more, r = '\\' :: 'u' :: e :: f :: g :: h' :: more
  · obtain ⟨e, f, g, h', more, rfl⟩ := hr
    obtain ⟨m, hm⟩ := hex4?_of_readChars h
    rw [readChars.eq_3, hn, hm]
    simp [hhigh, hlow, h]
  · rw [readChars.eq_4 _ _ _ _ _ fun e f g h' more he => hr ⟨e, f, g, h', more, he⟩, hn]
    simp [hhigh, hlow, h]

lemma readChars_short {e c : Char} {r r' : List Char} {s : List Char} (hu : e ≠ 'u')
    (he : shortEscape? e = some c) (h : readChars r = some (some s, r')) :
    readChars ('\\' :: e :: r) = some (some (c :: s), r') := by
  rw [readChars.eq_5 _ _ (fun _ _ _ _ _ _ _ _ _ hc _ => hu hc) fun _ _ _ _ _ hc _ => hu hc, he, h]
  rfl

lemma readChars_other {c : Char} {r r' : List Char} {s : List Char} (hquote : c ≠ '"')
    (hslash : c ≠ '\\') (hcontrol : ¬ c.toNat < 0x20) (h : readChars r = some (some s, r')) :
    readChars (c :: r) = some (some (c :: s), r') := by
  rw [readChars.eq_6 _ _ hquote (fun _ _ _ _ _ _ _ _ _ hc _ => hslash hc)
    (fun _ _ _ _ _ hc _ => hslash hc) fun _ _ hc _ => hslash hc, if_neg hcontrol, h]
  rfl

/-- A character is read off the front of a string as it was escaped. -/
lemma readChars_escape (c : Char) {r r' : List Char} {s : List Char}
    (h : readChars r = some (some s, r')) :
    readChars (escape c ++ r) = some (some (c :: s), r') := by
  unfold escape
  iterate 7
    split
    · next hc =>
      subst hc
      exact readChars_short (by decide) (by decide) h
  split
  · next hc =>
    have hread := readChars_code (hex4?_control hc) (by omega) h
    rwa [Char.ofNat_toNat] at hread
  · next hquote hslash _ _ _ _ _ hcontrol => exact readChars_other hquote hslash hcontrol h

/-- A string is read up to its closing quote. -/
theorem readChars_escaped (cs rest : List Char) :
    readChars (cs.flatMap escape ++ '"' :: rest) = some (some cs, rest) := by
  induction cs with
  | nil => exact readChars.eq_2 rest
  | cons c cs ih =>
    rw [List.flatMap_cons, List.append_assoc]
    exact readChars_escape c ih

/-! ### Numbers -/

lemma isDigit_of_mem_decimal {n : Nat} {c : Char} (h : c ∈ decimal n) : isDigit c = true := by
  have hdigit := Nat.isDigit_of_mem_toDigits (by decide) (by decide) h
  simp only [Char.isDigit, isDigit, Bool.and_eq_true, decide_eq_true_eq] at hdigit ⊢
  exact hdigit

lemma digitsValue_decimal (n : Nat) : digitsValue (decimal n) = n := by
  have hvalue : Nat.ofDigitChars 10 (Nat.toDigits 10 n) 0 = n := Nat.ofDigitChars_ten_toDigits
  rw [Nat.ofDigitChars_eq_foldl] at hvalue
  have hstep : (fun n d => n * 10 + digitValue d)
      = fun n (d : Char) => 10 * n + (d.toNat - '0'.toNat) := by
    funext n d
    rw [digitValue, Nat.mul_comm]
  rw [digitsValue, decimal, hstep]
  exact hvalue

lemma decimal_ne_nil (n : Nat) : decimal n ≠ [] := Nat.toDigits_ne_nil

/-- Only zero starts with a zero. -/
lemma head?_decimal {n : Nat} (h : (decimal n).head? = some '0') : n = 0 := by
  induction n using Nat.strongRecOn with
  | ind n ih =>
    rw [decimal, Nat.toDigits_eq_if (by decide)] at h
    split at h
    · next hn => interval_cases n <;> revert h <;> decide
    · next hn =>
      rw [List.head?_append_of_ne_nil _ Nat.toDigits_ne_nil] at h
      have hquotient := ih (n / 10) (by omega) h
      omega

/-- What may follow a value: nothing, or the sign before the next value or after the last. -/
def Ended (rest : List Char) : Prop := ∀ c ∈ rest.head?, c = ',' ∨ c = ']' ∨ c = '}'

lemma Ended.not_isDigit {rest : List Char} (h : Ended rest) :
    ∀ c ∈ rest.head?, isDigit c = false := by
  intro c hc
  rcases h c hc with rfl | rfl | rfl <;> decide

lemma takeWhile_decimal {n : Nat} {rest : List Char} (h : Ended rest) :
    (decimal n ++ rest).takeWhile isDigit = decimal n := by
  rw [List.takeWhile_append_of_pos fun c hc => isDigit_of_mem_decimal hc]
  cases rest with
  | nil => simp
  | cons c rest => simp [h.not_isDigit c rfl]

lemma dropWhile_decimal {n : Nat} {rest : List Char} (h : Ended rest) :
    (decimal n ++ rest).dropWhile isDigit = rest := by
  rw [List.dropWhile_append_of_pos fun c hc => isDigit_of_mem_decimal hc]
  cases rest with
  | nil => rfl
  | cons c rest => simp [h.not_isDigit c rfl]

lemma readFraction_ended {rest : List Char} (h : Ended rest) :
    readFraction rest = some ([], rest) := by
  cases rest with
  | nil => rfl
  | cons c rest => rcases h c rfl with rfl | rfl | rfl <;> rfl

lemma readExponent_ended {rest : List Char} (h : Ended rest) :
    readExponent rest = some (none, rest) := by
  cases rest with
  | nil => rfl
  | cons c rest => rcases h c rfl with rfl | rfl | rfl <;> rfl

/-- Digits that were written are digits that may be read. -/
lemma strict_decimal (n : Nat) :
    ((decimal n).isEmpty || ((decimal n).length > 1 && (decimal n).head? == some '0')) = false := by
  have hempty : (decimal n).isEmpty = false := List.isEmpty_eq_false_iff.2 (decimal_ne_nil n)
  rw [hempty, Bool.false_or, Bool.and_eq_false_iff]
  by_cases hzero : (decimal n).head? = some '0'
  · left
    rw [head?_decimal hzero]
    rfl
  · right
    exact beq_eq_false_iff_ne.2 hzero

/-- Without a sign in front the digits are the whole number. -/
lemma sign_decimal (n : Nat) (rest : List Char) :
    (match decimal n ++ rest with
      | '-' :: r => (true, r)
      | r => (false, r)) = (false, decimal n ++ rest) := by
  obtain ⟨c, cs, hc⟩ := List.exists_cons_of_ne_nil (decimal_ne_nil n)
  have hdigit : isDigit c = true := isDigit_of_mem_decimal (hc ▸ List.mem_cons_self)
  rw [hc, List.cons_append]
  split
  · next heq =>
    cases heq
    exact absurd hdigit (by decide)
  · rfl

lemma readNumber_nat {n : Nat} {rest : List Char} (hn : n < Word.bound) (h : Ended rest) :
    readNumber (decimal n ++ rest) = some (.nat n, rest) := by
  unfold readNumber
  split
  next heq =>
  obtain ⟨rfl, rfl⟩ := Prod.mk.inj ((sign_decimal n rest).symm.trans heq)
  simp only [takeWhile_decimal h, dropWhile_decimal h, strict_decimal, readFraction_ended h,
    Bool.false_eq_true, if_false, Option.bind_eq_bind, Option.bind_some, readExponent_ended h,
    number, digitsValue_decimal]
  simp [hn]

lemma readNumber_neg {n : Nat} {rest : List Char} (hpos : 0 < n) (hn : n ≤ Word.signedBound)
    (h : Ended rest) : readNumber ('-' :: decimal n ++ rest) = some (.neg n, rest) := by
  simp only [readNumber, List.cons_append, takeWhile_decimal h, dropWhile_decimal h,
    strict_decimal, readFraction_ended h, Bool.false_eq_true, if_false, Option.bind_eq_bind,
    Option.bind_some, readExponent_ended h, number, digitsValue_decimal]
  simp [hpos, hn]

/-! ### Values -/

/-- Values with one spelling: whole numbers within their ranges, and no part without a value. -/
inductive Plain : Json → Prop
  | null : Plain .null
  | bool (b : Bool) : Plain (.bool b)
  | nat {n : Nat} (h : n < Word.bound) : Plain (.nat n)
  | neg {n : Nat} (hpos : 0 < n) (h : n ≤ Word.signedBound) : Plain (.neg n)
  | str (s : String) : Plain (.str s)
  | arr {items : List Json} (h : ∀ j ∈ items, Plain j) : Plain (.arr items)
  | obj {members : List (String × Json)} (h : ∀ m ∈ members, Plain m.2) : Plain (.obj members)

/-- The characters that a value may start with. -/
def starts (c : Char) : Bool :=
  isDigit c || c == '-' || c == '"' || c == '[' || c == '{' || c == 'n' || c == 't' || c == 'f'

lemma starts_not_blank {c : Char} (h : starts c = true) : isBlank c = false := by
  by_contra hblank
  simp only [isBlank, Bool.not_eq_false, Bool.or_eq_true, beq_iff_eq] at hblank
  rcases hblank with ((rfl | rfl) | rfl) | rfl <;> exact absurd h (by decide)

lemma starts_not_closing {c : Char} (h : starts c = true) : c ≠ ']' ∧ c ≠ '}' := by
  constructor <;> rintro rfl <;> exact absurd h (by decide)

lemma render_starts {j : Json} (h : Plain j) : ∃ c cs, render j = c :: cs ∧ starts c = true := by
  cases h with
  | null => exact ⟨_, _, rfl, by decide⟩
  | bool b => cases b <;> exact ⟨_, _, rfl, by decide⟩
  | @nat n h =>
    obtain ⟨c, cs, hc⟩ := List.exists_cons_of_ne_nil (decimal_ne_nil n)
    have hdigit : isDigit c = true := isDigit_of_mem_decimal (hc ▸ List.mem_cons_self)
    exact ⟨c, cs, hc, by simp [starts, hdigit]⟩
  | neg => exact ⟨_, _, rfl, by decide⟩
  | str => exact ⟨_, _, rfl, by decide⟩
  | arr => exact ⟨_, _, rfl, by decide⟩
  | obj => exact ⟨_, _, rfl, by decide⟩

/-- A number is the only value that starts with a digit or a sign. -/
lemma readValue_number {c : Char} {cs : List Char} (h : isDigit c = true ∨ c = '-') (n : Nat) :
    readValue (n + 1) (c :: cs) = readNumber (c :: cs) := by
  have hblank : skipBlank (c :: cs) = c :: cs := by
    have hstarts : starts c = true := by
      rcases h with h | rfl
      · simp [starts, h]
      · decide
    rw [skipBlank, List.dropWhile_cons, starts_not_blank hstarts]
    rfl
  have hother (d : Char) (hd : d = 'n' ∨ d = 't' ∨ d = 'f' ∨ d = '"' ∨ d = '[' ∨ d = '{') :
      c ≠ d := by
    rintro rfl
    rcases h with h | rfl
    · rcases hd with rfl | rfl | rfl | rfl | rfl | rfl <;> exact absurd h (by decide)
    · revert hd
      decide
  rw [readValue.eq_2, hblank]
  split <;> first
    | next heq => exact absurd (List.cons.inj heq).1 (hother _ (by decide))
    | rfl

/-- A value is read off the front of a text, if its length is allowed for. -/
def ReadBack (j : Json) : Prop :=
  ∀ n rest, (render j).length ≤ n → Ended rest → readValue n (render j ++ rest) = some (j, rest)

lemma ended_sign {c : Char} (h : c = ',' ∨ c = ']' ∨ c = '}') (rest : List Char) :
    Ended (c :: rest) := by
  intro d hd
  cases hd
  exact h

lemma renderItems_cons (j k : Json) (items : List Json) :
    renderItems (j :: k :: items) = render j ++ ',' :: renderItems (k :: items) :=
  renderItems.eq_3 _ _ (List.cons_ne_nil k items)

lemma renderMembers_cons (name : String) (j : Json) (k : String × Json)
    (members : List (String × Json)) :
    renderMembers ((name, j) :: k :: members)
      = quote name ++ ':' :: render j ++ ',' :: renderMembers (k :: members) :=
  renderMembers.eq_3 _ _ _ (List.cons_ne_nil k members)

/-- The items of an array, each of which is read back. -/
lemma readItems_render {items : List Json} (hne : items ≠ []) (h : ∀ j ∈ items, ReadBack j) :
    ∀ n rest, (renderItems items).length ≤ n →
      readItems n (renderItems items ++ rest) = some (items, rest) := by
  induction items with
  | nil => exact absurd rfl hne
  | cons j items ih =>
    intro n rest hn
    have hj := h j List.mem_cons_self
    cases items with
    | nil =>
      rw [renderItems, List.length_append, List.length_singleton] at hn
      obtain ⟨m, rfl⟩ : ∃ m, n = m + 1 := ⟨n - 1, by omega⟩
      have hread := hj m (']' :: rest) (by omega) (ended_sign (by decide) rest)
      rw [renderItems, List.append_assoc, List.singleton_append, readItems.eq_2, hread]
      rfl
    | cons k items =>
      rw [renderItems_cons, List.length_append, List.length_cons] at hn
      obtain ⟨m, rfl⟩ : ∃ m, n = m + 1 := ⟨n - 1, by omega⟩
      have hread := hj m (',' :: (renderItems (k :: items) ++ rest)) (by omega)
        (ended_sign (by decide) _)
      have hrest := ih (List.cons_ne_nil k items) (fun x hx => h x (List.mem_cons_of_mem _ hx)) m
        rest (by omega)
      rw [renderItems_cons, List.append_assoc, List.cons_append, readItems.eq_2, hread]
      simp [skipBlank, isBlank, hrest]

/-- The members of an object, whose values are read back. -/
lemma readMembers_render {members : List (String × Json)} (hne : members ≠ [])
    (h : ∀ m ∈ members, ReadBack m.2) :
    ∀ n rest, (renderMembers members).length ≤ n →
      readMembers n (renderMembers members ++ rest)
        = some (members.map fun m => (some m.1, m.2), rest) := by
  induction members with
  | nil => exact absurd rfl hne
  | cons x members ih =>
    obtain ⟨name, j⟩ := x
    intro n rest hn
    have hj : ReadBack j := h (name, j) List.mem_cons_self
    cases members with
    | nil =>
      rw [renderMembers] at hn ⊢
      simp only [List.length_append, List.length_cons, List.length_nil] at hn
      obtain ⟨m, rfl⟩ : ∃ m, n = m + 1 := ⟨n - 1, by omega⟩
      have hread := hj m ('}' :: rest) (by omega) (ended_sign (by decide) rest)
      have htext : quote name ++ ':' :: render j ++ ['}'] ++ rest
          = '"' :: (name.toList.flatMap escape ++ '"' :: ':' :: (render j ++ '}' :: rest)) := by
        simp [quote]
      rw [htext, readMembers.eq_2]
      simp [skipBlank, isBlank, readChars_escaped, hread]
    | cons k members =>
      rw [renderMembers_cons] at hn ⊢
      simp only [List.length_append, List.length_cons] at hn
      obtain ⟨m, rfl⟩ : ∃ m, n = m + 1 := ⟨n - 1, by omega⟩
      have hread := hj m (',' :: (renderMembers (k :: members) ++ rest)) (by omega)
        (ended_sign (by decide) _)
      have hrest := ih (List.cons_ne_nil k members) (fun x hx => h x (List.mem_cons_of_mem _ hx)) m
        rest (by omega)
      have htext : quote name ++ ':' :: render j ++ ',' :: renderMembers (k :: members) ++ rest
          = '"' :: (name.toList.flatMap escape
            ++ '"' :: ':' :: (render j ++ ',' :: (renderMembers (k :: members) ++ rest))) := by
        simp [quote]
      rw [htext, readMembers.eq_2]
      simp [skipBlank, isBlank, readChars_escaped, hread, hrest]

lemma ofMembers_named (members : List (String × Json)) :
    ofMembers (members.map fun m => (some m.1, m.2)) = .obj members := by
  have hnamed : (members.map fun m => (some m.1, m.2)).mapM
      (fun m => m.1.map (·, m.2)) = some members := by
    induction members with
    | nil => rfl
    | cons m members ih => simp [List.mapM_cons, ih]
  unfold ofMembers
  split
  · next read heq => exact congrArg obj (Option.some.inj (heq.symm.trans hnamed))
  · next heq => exact absurd (heq.symm.trans hnamed) (by simp)

lemma skipBlank_starts {c : Char} (h : starts c = true) (cs : List Char) :
    skipBlank (c :: cs) = c :: cs := by
  rw [skipBlank, List.dropWhile_cons, starts_not_blank h]
  rfl

lemma renderItems_starts {j : Json} (h : Plain j) (items : List Json) :
    ∃ c cs, renderItems (j :: items) = c :: cs ∧ starts c = true := by
  obtain ⟨c, cs, hc, hs⟩ := render_starts h
  cases items with
  | nil => exact ⟨c, _, by rw [renderItems, hc]; rfl, hs⟩
  | cons k items => exact ⟨c, _, by rw [renderItems_cons, hc]; rfl, hs⟩

lemma renderMembers_starts (m : String × Json) (members : List (String × Json)) :
    ∃ cs, renderMembers (m :: members) = '"' :: cs := by
  cases members with
  | nil => exact ⟨_, by rw [renderMembers, quote]; rfl⟩
  | cons k members => exact ⟨_, by rw [renderMembers_cons, quote]; rfl⟩

/-- The items of an array are read if there is one. -/
lemma readValue_items {c : Char} {cs : List Char} (h : starts c = true) (n : Nat) :
    readValue (n + 1) ('[' :: c :: cs)
      = (readItems n (c :: cs)).map fun x => (.arr x.1, x.2) := by
  have hbracket : skipBlank ('[' :: c :: cs) = '[' :: c :: cs := rfl
  simp only [readValue, hbracket, skipBlank_starts h]
  split
  · next heq => exact absurd (List.cons.inj heq).1 (starts_not_closing h).1
  · cases readItems n (c :: cs) <;> rfl

/-- The members of an object are read if there is one. -/
lemma readValue_members {c : Char} {cs : List Char} (h : starts c = true) (n : Nat) :
    readValue (n + 1) ('{' :: c :: cs)
      = (readMembers n (c :: cs)).map fun x => (ofMembers x.1, x.2) := by
  have hbrace : skipBlank ('{' :: c :: cs) = '{' :: c :: cs := rfl
  simp only [readValue, hbrace, skipBlank_starts h]
  split
  · next heq => exact absurd (List.cons.inj heq).1 (starts_not_closing h).2
  · cases readMembers n (c :: cs) <;> rfl

lemma pos_of_render {j : Json} {n : Nat} (h : Plain j) (hn : (render j).length ≤ n) :
    ∃ m, n = m + 1 := by
  obtain ⟨c, cs, hc, -⟩ := render_starts h
  rw [hc, List.length_cons] at hn
  exact ⟨n - 1, by omega⟩

/-- **A value is read as it was written.** -/
theorem readBack {j : Json} (h : Plain j) : ReadBack j := by
  induction h with
  | null =>
    intro n rest hn _
    obtain ⟨m, rfl⟩ := pos_of_render .null hn
    rfl
  | bool b =>
    intro n rest hn _
    obtain ⟨m, rfl⟩ := pos_of_render (.bool b) hn
    cases b <;> rfl
  | @nat k h =>
    intro n rest hn hrest
    obtain ⟨m, rfl⟩ := pos_of_render (.nat h) hn
    obtain ⟨c, cs, hc⟩ := List.exists_cons_of_ne_nil (decimal_ne_nil k)
    have hdigit : isDigit c = true := isDigit_of_mem_decimal (hc ▸ List.mem_cons_self)
    rw [render, hc, List.cons_append, readValue_number (.inl hdigit), ← List.cons_append, ← hc]
    exact readNumber_nat h hrest
  | neg hpos h =>
    intro n rest hn hrest
    obtain ⟨m, rfl⟩ := pos_of_render (.neg hpos h) hn
    rw [render, List.cons_append, readValue_number (.inr rfl)]
    exact readNumber_neg hpos h hrest
  | str s =>
    intro n rest hn _
    obtain ⟨m, rfl⟩ := pos_of_render (.str s) hn
    have htext : render (.str s) ++ rest = '"' :: (s.toList.flatMap escape ++ '"' :: rest) := by
      simp [render, quote]
    rw [htext, readValue.eq_2]
    simp [skipBlank, isBlank, readChars_escaped]
  | @arr items h ih =>
    intro n rest hn _
    obtain ⟨m, rfl⟩ := pos_of_render (.arr h) hn
    rw [render, List.length_cons] at hn
    cases items with
    | nil => rfl
    | cons j items =>
      obtain ⟨c, cs, hc, hs⟩ := renderItems_starts (h j List.mem_cons_self) items
      have hread := readItems_render (List.cons_ne_nil j items) ih m rest (by omega)
      rw [hc, List.cons_append] at hread
      rw [render, hc, List.cons_append, List.cons_append, readValue_items hs, hread]
      rfl
  | @obj members h ih =>
    intro n rest hn _
    obtain ⟨m, rfl⟩ := pos_of_render (.obj h) hn
    rw [render, List.length_cons] at hn
    cases members with
    | nil => rfl
    | cons x members =>
      obtain ⟨cs, hc⟩ := renderMembers_starts x members
      have hread := readMembers_render (List.cons_ne_nil x members) ih m rest (by omega)
      rw [hc, List.cons_append] at hread
      rw [render, hc, List.cons_append, List.cons_append, readValue_members (by decide), hread,
        Option.map_some, ofMembers_named]

/-- **A text is read as the value it was written for.** -/
theorem parseChars_render {j : Json} (h : Plain j) : parseChars (render j) = some j := by
  have hread := readBack h (2 * (render j).length + 2) [] (by omega) (by intro c hc; cases hc)
  rw [List.append_nil] at hread
  rw [parseChars, hread]
  rfl

/-! ### Characters -/

/-- No character below the blank: neither the end of a line nor another control. -/
def Visible (cs : List Char) : Prop := ∀ c ∈ cs, 0x20 ≤ c.toNat

instance (cs : List Char) : Decidable (Visible cs) :=
  List.decidableBAll (fun c : Char => 0x20 ≤ c.toNat) cs

lemma visible_append {cs ds : List Char} : Visible (cs ++ ds) ↔ Visible cs ∧ Visible ds :=
  List.forall_mem_append

lemma visible_cons {c : Char} {cs : List Char} :
    Visible (c :: cs) ↔ 0x20 ≤ c.toNat ∧ Visible cs := List.forall_mem_cons

lemma visible_of_isDigit {c : Char} (h : isDigit c = true) : 0x20 ≤ c.toNat := by
  simp only [isDigit, Bool.and_eq_true, decide_eq_true_eq] at h
  have hzero : '0'.toNat ≤ c.toNat := h.1
  exact Nat.le_trans (by decide) hzero

lemma visible_hexChar {n : Nat} (h : n < 16) : 0x20 ≤ (hexChar n).toNat := by
  interval_cases n <;> decide

lemma visible_escape (c : Char) : Visible (escape c) := by
  unfold escape
  iterate 7
    split
    · decide
  split
  · have hhigh : 0x20 ≤ (hexChar (c.toNat / 16)).toNat := visible_hexChar (by omega)
    have hlow : 0x20 ≤ (hexChar (c.toNat % 16)).toNat := visible_hexChar (by omega)
    simp only [visible_cons, hhigh, hlow, true_and]
    decide
  · next hcontrol => exact fun d hd => List.mem_singleton.1 hd ▸ Nat.le_of_not_lt hcontrol

lemma visible_quote (s : String) : Visible (quote s) := by
  have hinner : Visible (s.toList.flatMap escape) := by
    intro c hc
    obtain ⟨d, -, hd⟩ := List.mem_flatMap.1 hc
    exact visible_escape d c hd
  rw [quote, visible_append, visible_cons]
  exact ⟨⟨by decide, hinner⟩, by decide⟩

lemma visible_renderItems {items : List Json} (h : ∀ j ∈ items, Visible (render j)) :
    Visible (renderItems items) := by
  induction items with
  | nil => decide
  | cons j items ih =>
    have hj := h j List.mem_cons_self
    have hrest := ih fun k hk => h k (List.mem_cons_of_mem _ hk)
    cases items with
    | nil => exact visible_append.2 ⟨hj, hrest⟩
    | cons k items =>
      rw [renderItems_cons, visible_append, visible_cons]
      exact ⟨hj, by decide, hrest⟩

lemma visible_renderMembers {members : List (String × Json)}
    (h : ∀ m ∈ members, Visible (render m.2)) : Visible (renderMembers members) := by
  induction members with
  | nil => decide
  | cons m members ih =>
    obtain ⟨name, j⟩ := m
    have hj : Visible (render j) := h (name, j) List.mem_cons_self
    have hrest := ih fun k hk => h k (List.mem_cons_of_mem _ hk)
    cases members with
    | nil =>
      simp only [renderMembers, visible_append, visible_cons]
      exact ⟨⟨visible_quote name, by decide, hj⟩, by decide⟩
    | cons k members =>
      simp only [renderMembers_cons, visible_append, visible_cons]
      exact ⟨⟨visible_quote name, by decide, hj⟩, by decide, hrest⟩

/-- A value is written on one line. -/
theorem visible_render {j : Json} (h : Plain j) : Visible (render j) := by
  induction h with
  | null => decide
  | bool b => cases b <;> decide
  | nat => exact fun c hc => visible_of_isDigit (isDigit_of_mem_decimal hc)
  | neg =>
    rw [render, visible_cons]
    exact ⟨by decide, fun c hc => visible_of_isDigit (isDigit_of_mem_decimal hc)⟩
  | str s => exact visible_quote s
  | arr _ ih => exact visible_cons.2 ⟨by decide, visible_renderItems ih⟩
  | obj _ ih => exact visible_cons.2 ⟨by decide, visible_renderMembers ih⟩

end EpochRewards.Json
