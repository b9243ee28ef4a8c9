import EpochRewards.Word

/-!
Decimal numbers as they are read: digits that make a word, and a power of ten.

Digits that do not fit into the word any more are not kept. A number is in range if its word
and its power of ten, each rounded to a double, have a finite product.
-/

namespace EpochRewards.Json

def isDigit (c : Char) : Bool := '0' ≤ c && c ≤ '9'

def digitValue (c : Char) : Nat := c.toNat - '0'.toNat

def digitsValue (ds : List Char) : Nat := ds.foldl (fun n d => n * 10 + digitValue d) 0

/-- Stands for `significand * 10 ^ exponent`. -/
structure Decimal where
  significand : Nat
  exponent : Int
  deriving DecidableEq

namespace Decimal

def zero : Decimal := ⟨0, 0⟩

/-- The significand with another digit, if that is a word. -/
def push? (d : Decimal) (c : Char) : Option Nat :=
  let n := d.significand * 10 + digitValue c
  if n < Word.bound then some n else none

/-- Appends digits in front of the point. Those that are not kept raise the exponent. -/
def pushWhole (d : Decimal) : List Char → Decimal
  | [] => d
  | c :: cs =>
    match d.push? c with
    | some n => pushWhole { d with significand := n } cs
    | none => { d with exponent := d.exponent + cs.length + 1 }

/-- Appends digits behind the point. Those that are not kept have no effect. -/
def pushFraction (d : Decimal) : List Char → Decimal
  | [] => d
  | c :: cs =>
    match d.push? c with
    | some n => pushFraction ⟨n, d.exponent - 1⟩ cs
    | none => d

def scale (d : Decimal) (exponent : Int) : Decimal :=
  { d with exponent := d.exponent + exponent }

/-! ### Doubles -/

/-- The double nearest to a number, of two the even one. -/
def toDouble (n : Nat) : Nat :=
  let unit := 1 <<< (n.log2 - 52)
  let q := n / unit
  let r := n % unit
  (if unit < 2 * r ∨ unit = 2 * r ∧ q % 2 = 1 then q + 1 else q) * unit

/-- The smallest number that rounds to no finite double. -/
def doubleLimit : Nat := 1 <<< 1024 - 1 <<< 970

/-- The largest power of ten that is a finite double. -/
def maxExponent : Int := 308

def isInRange (d : Decimal) : Bool :=
  d.significand == 0 || d.exponent < 0 ||
    d.exponent ≤ maxExponent &&
      toDouble d.significand * toDouble (Nat.pow 10 d.exponent.toNat) < doubleLimit

end Decimal

end EpochRewards.Json
