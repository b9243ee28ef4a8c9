import EpochRewards.Json.Codec
import EpochRewards.Json.Reader
import EpochRewards.Json.Writer

/-!
Byte strings of a fixed width, as the numbers they are in big-endian order.

The text form is `0x` and two hexadecimal digits per byte. A reader takes digits of either
case in pairs and skips blanks among them, so that a value with blanks fills fewer bytes;
the bytes at the end are then zero.
-/

namespace EpochRewards

structure Digest (width : Nat) where
  val : BitVec (8 * width)
  deriving DecidableEq

/-- Roots of blocks and states. -/
abbrev Root := Digest 32

abbrev PublicKey := Digest 48

namespace Digest

variable {width : Nat}

/-- The lowest bytes of `n`. -/
def ofNat (width n : Nat) : Digest width :=
  ⟨BitVec.ofNat (8 * width) n⟩

def zero : Digest width := ofNat width 0

/-- Every bit set. -/
def ones : Digest width := ⟨BitVec.allOnes (8 * width)⟩

def isZero (d : Digest width) : Bool := d.val.toNat == 0

/-- The `k` lowest hexadecimal digits of `n`, highest first. -/
def hexDigits (n : Nat) : Nat → List Char
  | 0 => []
  | k + 1 => Json.hexChar (n >>> (4 * k) % 16) :: hexDigits n k

def toText (d : Digest width) : String :=
  String.ofList ('0' :: 'x' :: hexDigits d.val.toNat (2 * width))

/-- The digits among `cs`, unless something else than a digit or a blank is there. -/
def digits? : List Char → Option (List Nat)
  | [] => some []
  | c :: cs =>
    if Json.isBlank c then digits? cs
    else do return (← Json.hexDigit? c) :: (← digits? cs)

/-- The number of whole pairs of digits, on the left of `width` bytes. -/
def fill (width : Nat) (ds : List Nat) : Nat :=
  let pairs := ds.length / 2
  (ds.take (2 * pairs)).foldl (fun n d => n * 16 + d) 0 <<< (8 * (width - pairs))

def ofText? (width : Nat) (s : String) : Option (Digest width) :=
  let cs := match s.toList with
    | '0' :: 'x' :: cs => cs
    | cs => cs
  if cs.length = 2 * width then (digits? cs).map fun ds => ofNat width (fill width ds) else none

def codec (width : Nat) : Codec (Digest width) := Codec.named toText (ofText? width)

end Digest

end EpochRewards
