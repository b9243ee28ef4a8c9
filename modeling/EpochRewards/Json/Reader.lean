import EpochRewards.Json.Decimal
import EpochRewards.Json.Value

/-!
Reading JSON texts.

The grammar is strict: no comments, no trailing commas, no leading zeros, nothing but blanks
after the value. Each reader takes a value off the front of the text and returns the rest.
-/

namespace EpochRewards.Json

def isBlank (c : Char) : Bool := c == ' ' || c == '\n' || c == '\t' || c == '\r'

def skipBlank (cs : List Char) : List Char := cs.dropWhile isBlank

def hexDigit? (c : Char) : Option Nat :=
  if '0' ≤ c ∧ c ≤ '9' then some (c.toNat - '0'.toNat)
  else if 'a' ≤ c ∧ c ≤ 'f' then some (c.toNat - 'a'.toNat + 10)
  else if 'A' ≤ c ∧ c ≤ 'F' then some (c.toNat - 'A'.toNat + 10)
  else none

def hex4? (a b c d : Char) : Option Nat := do
  return (((← hexDigit? a) * 16 + (← hexDigit? b)) * 16 + (← hexDigit? c)) * 16 + (← hexDigit? d)

def shortEscape? : Char → Option Char
  | '"' => some '"'
  | '\\' => some '\\'
  | '/' => some '/'
  | 'b' => some '\x08'
  | 'f' => some '\x0c'
  | 'n' => some '\n'
  | 'r' => some '\r'
  | 't' => some '\t'
  | _ => none

def isHighSurrogate (n : Nat) : Bool := 0xD800 ≤ n && n < 0xDC00

def isLowSurrogate (n : Nat) : Bool := 0xDC00 ≤ n && n < 0xE000

/-- Characters read so far; `none` once a surrogate stood without its partner. -/
abbrev Spelled := Option (List Char)

/-- The characters of a string up to its closing quote. -/
def readChars : List Char → Option (Spelled × List Char)
  | [] => none
  | '"' :: rest => some (some [], rest)
  | '\\' :: 'u' :: a :: b :: c :: d :: '\\' :: 'u' :: e :: f :: g :: h :: rest => do
    let hi ← hex4? a b c d
    let lo ← hex4? e f g h
    if isHighSurrogate hi && isLowSurrogate lo then
      let (s, r) ← readChars rest
      return (s.map (Char.ofNat (0x10000 + (hi - 0xD800) * 0x400 + (lo - 0xDC00)) :: ·), r)
    else
      let (s, r) ← readChars ('\\' :: 'u' :: e :: f :: g :: h :: rest)
      return (if isHighSurrogate hi || isLowSurrogate hi then none
        else s.map (Char.ofNat hi :: ·), r)
  | '\\' :: 'u' :: a :: b :: c :: d :: rest => do
    let n ← hex4? a b c d
    let (s, r) ← readChars rest
    return (if isHighSurrogate n || isLowSurrogate n then none
      else s.map (Char.ofNat n :: ·), r)
  | '\\' :: e :: rest => do
    let c ← shortEscape? e
    let (s, r) ← readChars rest
    return (s.map (c :: ·), r)
  | c :: rest => do
    if c.toNat < 0x20 then none
    else
      let (s, r) ← readChars rest
      return (s.map (c :: ·), r)

/-- An optional fraction: the point and at least one digit. -/
def readFraction : List Char → Option (List Char × List Char)
  | '.' :: rest =>
    let ds := rest.takeWhile isDigit
    if ds.isEmpty then none else some (ds, rest.dropWhile isDigit)
  | cs => some ([], cs)

/-- An optional exponent: its letter, an optional sign and at least one digit. -/
def readExponent : List Char → Option (Option Int × List Char)
  | e :: rest =>
    if e == 'e' || e == 'E' then
      let (negative, digits) := match rest with
        | '-' :: r => (true, r)
        | '+' :: r => (false, r)
        | r => (false, r)
      let ds := digits.takeWhile isDigit
      let n : Int := digitsValue ds
      if ds.isEmpty then none
      else some (some (if negative then -n else n), digits.dropWhile isDigit)
    else some (none, e :: rest)
  | [] => some (none, [])

/-- The front of a text in front of its rest. -/
def front (text rest : List Char) : List Char := text.take (text.length - rest.length)

/-- Classifies a number by its integer digits, fraction and exponent. It stands at the front of
a text. -/
def number (minus : Bool) (ds fraction : List Char) (exponent : Option Int)
    (text rest : List Char) : Json :=
  let n := digitsValue ds
  if fraction.isEmpty && exponent.isNone && !minus && n < Word.bound then .nat n
  else if fraction.isEmpty && exponent.isNone && minus && 0 < n && n ≤ Word.signedBound then .neg n
  else
    let d := ((Decimal.zero.pushWhole ds).pushFraction fraction).scale (exponent.getD 0)
    if d.isInRange then .real (String.ofList (front text rest)) else .unreadable

def readNumber (cs : List Char) : Option (Json × List Char) := do
  let (minus, r) := match cs with
    | '-' :: r => (true, r)
    | r => (false, r)
  let ds := r.takeWhile isDigit
  if ds.isEmpty || (ds.length > 1 && ds.head? == some '0') then none
  else
    let (fraction, r₁) ← readFraction (r.dropWhile isDigit)
    let (exponent, r₂) ← readExponent r₁
    return (number minus ds fraction exponent cs r₂, r₂)

/-- An object with an unreadable name is unreadable as a whole. -/
def ofMembers (ms : List (Option String × Json)) : Json :=
  match ms.mapM fun (n, j) => n.map (·, j) with
  | some members => .obj members
  | none => .unreadable

mutual

/-- A value; the first argument bounds the number of nested and neighbouring values. -/
def readValue : Nat → List Char → Option (Json × List Char)
  | 0, _ => none
  | n + 1, cs =>
    match skipBlank cs with
    | 'n' :: 'u' :: 'l' :: 'l' :: r => some (.null, r)
    | 't' :: 'r' :: 'u' :: 'e' :: r => some (.bool true, r)
    | 'f' :: 'a' :: 'l' :: 's' :: 'e' :: r => some (.bool false, r)
    | '"' :: r => do
      let (s, r) ← readChars r
      return ((s.map (.str <| String.ofList ·)).getD .unreadable, r)
    | '[' :: r =>
      match skipBlank r with
      | ']' :: r => some (.arr [], r)
      | r => do
        let (items, r) ← readItems n r
        return (.arr items, r)
    | '{' :: r =>
      match skipBlank r with
      | '}' :: r => some (.obj [], r)
      | r => do
        let (members, r) ← readMembers n r
        return (ofMembers members, r)
    | r => readNumber r

/-- The items of an array after its bracket, at least one. -/
def readItems : Nat → List Char → Option (List Json × List Char)
  | 0, _ => none
  | n + 1, cs => do
    let (j, r) ← readValue n cs
    match skipBlank r with
    | ']' :: r => return ([j], r)
    | ',' :: r =>
      let (items, r) ← readItems n r
      return (j :: items, r)
    | _ => none

/-- The members of an object after its brace, at least one. -/
def readMembers : Nat → List Char → Option (List (Option String × Json) × List Char)
  | 0, _ => none
  | n + 1, cs =>
    match skipBlank cs with
    | '"' :: r => do
      let (s, r) ← readChars r
      match skipBlank r with
      | ':' :: r =>
        let (j, r) ← readValue n r
        let member := (s.map String.ofList, j)
        match skipBlank r with
        | '}' :: r => return ([member], r)
        | ',' :: r =>
          let (members, r) ← readMembers n r
          return (member :: members, r)
        | _ => none
      | _ => none
    | _ => none

end

/-- The value that a whole text stands for. -/
def parseChars (cs : List Char) : Option Json := do
  let (j, r) ← readValue (2 * cs.length + 2) cs
  if (skipBlank r).isEmpty then some j else none

def parse (text : String) : Option Json := parseChars text.toList

end EpochRewards.Json
