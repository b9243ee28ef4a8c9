/-!
Arithmetic of 64-bit words with every overflow reported.

Quantities are natural numbers. An operation whose exact result is not a word ends in a
fault instead of a value; only the saturating operations stop at the largest word.
-/

namespace EpochRewards

/-- Why an operation on words has no result, or a size is out of the question. -/
inductive Fault where
  | addOverflow
  | subOverflow
  | mulOverflow
  | divideByZero
  | remainderByZero
  | indexOutOfBounds (index length : Nat)
  | bitOutOfRange (index length : Nat)
  | tooManyShares
  | spaceExceeded
  deriving DecidableEq

def Fault.message : Fault → String
  | .addOverflow => "attempt to add with overflow"
  | .subOverflow => "attempt to subtract with overflow"
  | .mulOverflow => "attempt to multiply with overflow"
  | .divideByZero => "attempt to divide by zero"
  | .remainderByZero => "attempt to calculate the remainder with a divisor of zero"
  | .indexOutOfBounds index length =>
    s!"index out of bounds: the len is {length} but the index is {index}"
  | .bitOutOfRange index length => s!"index {index} out of range: Excluded({length})"
  | .tooManyShares =>
    "a semaphore may not have more than MAX_PERMITS permits (2305843009213693951)"
  | .spaceExceeded => "capacity overflow"

/-- A computation stops in a fault of its arithmetic or in an error of its own domain. -/
inductive Failure (ε : Type) where
  | fault (f : Fault)
  | error (e : ε)
  deriving DecidableEq

instance liftFault {ε : Type} : MonadLift (Except Fault) (Except (Failure ε)) where
  monadLift x := x.mapError .fault

instance liftExcept {ε σ : Type} : MonadLift (Except ε) (EStateM ε σ) where
  monadLift
    | .ok a => pure a
    | .error e => throw e

end EpochRewards

/-- The domain error `e` in place of a missing value. -/
def Option.orFail {ε α : Type} (x : Option α) (e : ε) : Except (EpochRewards.Failure ε) α :=
  match x with
  | some a => .ok a
  | none => .error (.error e)

namespace EpochRewards

namespace Word

/-- One more than the largest word. -/
def bound : Nat := 18446744073709551616

/-- One more than the largest signed word. -/
def signedBound : Nat := 9223372036854775808

/-- The largest word. -/
def max : Nat := bound - 1

def add (a b : Nat) : Except Fault Nat :=
  if a + b < bound then .ok (a + b) else .error .addOverflow

def sub (a b : Nat) : Except Fault Nat :=
  if b ≤ a then .ok (a - b) else .error .subOverflow

def mul (a b : Nat) : Except Fault Nat :=
  if a * b < bound then .ok (a * b) else .error .mulOverflow

def div (a b : Nat) : Except Fault Nat :=
  if b = 0 then .error .divideByZero else .ok (a / b)

def rem (a b : Nat) : Except Fault Nat :=
  if b = 0 then .error .remainderByZero else .ok (a % b)

/-- The sum from left to right; a partial sum that is not a word is a fault. -/
def sum (xs : List Nat) : Except Fault Nat := xs.foldlM add 0

def satAdd (a b : Nat) : Nat := min (a + b) max

def satMul (a b : Nat) : Nat := min (a * b) max

/-- The bits `k - 1, …, 0` of the root of `n`, given the higher bits `r`. -/
def sqrtBits (n : Nat) : Nat → Nat → Nat
  | 0, r => r
  | k + 1, r =>
    let c := r + 1 <<< k
    sqrtBits n k (if c * c ≤ n then c else r)

/-- The largest number whose square is at most `n`. -/
def sqrt (n : Nat) : Nat := sqrtBits n (n.log2 / 2 + 1) 0

end Word

/-- A word that is not zero, as divisors are. -/
structure Positive where
  val : Nat
  pos : 0 < val
  deriving DecidableEq

instance coePositive : CoeOut Positive Nat := ⟨Positive.val⟩

namespace Positive

def ofNat? (n : Nat) : Option Positive :=
  if h : 0 < n then some ⟨n, h⟩ else none

end Positive

end EpochRewards
