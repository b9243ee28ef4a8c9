import EpochRewards.Json.Codec

/-!
Bit vectors stored in bytes, least significant bit first.

A vector may start inside its first byte. In the byte form every bit outside the vector
is zero and no byte lies wholly outside it.
-/

namespace EpochRewards

structure BitVector where
  /-- the bit of the first byte at which the vector starts -/
  head : Fin 8
  bits : List Bool
  deriving DecidableEq

namespace BitVector

def ofBits (bits : List Bool) : BitVector := ⟨0, bits⟩

def length (v : BitVector) : Nat := v.bits.length

def countOnes (v : BitVector) : Nat := v.bits.count true

/-- The positions of the set bits from `i` on, in ascending order. -/
def onesFrom (i : Nat) : List Bool → List Nat
  | [] => []
  | true :: bits => i :: onesFrom (i + 1) bits
  | false :: bits => onesFrom (i + 1) bits

def ones (v : BitVector) : List Nat := onesFrom 0 v.bits

def clear (v : BitVector) (i : Nat) : Except Fault BitVector :=
  if i < v.bits.length then .ok { v with bits := v.bits.set i false }
  else .error (.bitOutOfRange i v.bits.length)

/-- The byte whose bits these are, the lowest first. -/
def byteOf (bits : List Bool) : Nat := bits.foldr (fun b n => 2 * n + b.toNat) 0

/-- The bytes of a row of bits, `count` of them. -/
def packBytes : Nat → List Bool → List Nat
  | 0, _ => []
  | count + 1, bits => byteOf (bits.take 8) :: packBytes count (bits.drop 8)

/-- The bits of a byte, the lowest first. -/
def bitsOf (byte : Nat) : List Bool := (List.range 8).map byte.testBit

def toBytes (v : BitVector) : List Nat :=
  packBytes ((v.head + v.bits.length + 7) / 8) (List.replicate v.head false ++ v.bits)

def ofBytes? (head length : Nat) (bytes : List Nat) : Option BitVector :=
  if h : head < 8 then
    if head + length ≤ 8 * bytes.length then
      some ⟨⟨head, h⟩, ((bytes.flatMap bitsOf).drop head).take length⟩
    else none
  else none

open Codec Codec.Fields

/-- The start within the first byte; the storage units are bytes. -/
def headCodec : Codec Nat :=
  (fields true <| req "width" byte <| req "index" byte <| none).mapped
    (fun index => (8, index, ()))
    fun (width, index, _) => if width = 8 then some index else Option.none

/-- The name under which the order of the bits is recorded. -/
def orderName : String := "bitvec::order::Lsb0"

def codec : Codec BitVector :=
  (fields true <|
    req "order" text <| req "head" headCodec <| req "bits" word <| req "data" (list byte) <|
    none).mapped
    (fun v => (orderName, v.head, v.bits.length, v.toBytes, ()))
    fun (order, head, length, bytes, _) =>
      if order = orderName then ofBytes? head length bytes else Option.none

end BitVector

end EpochRewards
