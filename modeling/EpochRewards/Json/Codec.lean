import EpochRewards.Json.Value
import EpochRewards.Word

/-!
Codecs: a type together with its JSON form.

A record is an object with a member per field, or an array of its field values in the order of
declaration. A name may stand only once; names that are no field are skipped, or refused by a
strict record. `Fields` lists the fields of a record as a nested pair of their values.
-/

namespace EpochRewards

structure Codec (α : Type) where
  encode : α → Json
  decode : Json → Option α

namespace Codec

def bool : Codec Bool where
  encode := .bool
  decode
    | .bool b => some b
    | _ => none

/-- Numbers below a bound. -/
def below (bound : Nat) : Codec Nat where
  encode := .nat
  decode
    | .nat n => if n < bound then some n else none
    | _ => none

def word : Codec Nat := below Word.bound

def word32 : Codec Nat := below 4294967296

def byte : Codec Nat := below 256

def positive : Codec Positive where
  encode p := .nat p.val
  decode j := word.decode j >>= Positive.ofNat?

/-- Signed 64-bit integers. -/
def int : Codec Int where
  encode
    | .ofNat n => .nat n
    | .negSucc n => .neg (n + 1)
  decode
    | .nat n => if n < Word.signedBound then some n else none
    | .neg n => if n ≤ Word.signedBound then some (-n) else none
    | _ => none

def text : Codec String where
  encode := .str
  decode
    | .str s => some s
    | _ => none

/-- Values written as their names. -/
def named {α : Type} (name : α → String) (ofName? : String → Option α) : Codec α where
  encode a := .str (name a)
  decode j := text.decode j >>= ofName?

def list {α : Type} (c : Codec α) : Codec (List α) where
  encode xs := .arr (xs.map c.encode)
  decode
    | .arr items => items.mapM c.decode
    | _ => none

/-- A value or `null`. -/
def nullable {α : Type} (c : Codec α) : Codec (Option α) where
  encode
    | none => .null
    | some a => c.encode a
  decode
    | .null => some none
    | j => (c.decode j).map some

/-- A form carried over along a pair of conversions. -/
def mapped {α β : Type} (c : Codec α) (form : β → α) (of : α → Option β) : Codec β where
  encode b := c.encode (form b)
  decode j := c.decode j >>= of

/-- What a text holds in the place of a field. -/
inductive Cell where
  | given (j : Json)
  /-- an object without that member -/
  | absent
  /-- an array that ends before that field -/
  | cut

structure Fields (β : Type) where
  names : List String
  encode : β → List Json
  decode : List Cell → Option β

namespace Fields

def none : Fields Unit where
  names := []
  encode _ := []
  decode _ := some ()

/-- One more field in front, whose value in the place of a missing one is `missing`. -/
def cons {α β : Type} (name : String) (c : Codec α) (missing : Cell → Option α)
    (rest : Fields β) : Fields (α × β) where
  names := name :: rest.names
  encode p := c.encode p.1 :: rest.encode p.2
  decode
    | .given j :: cells => do return (← c.decode j, ← rest.decode cells)
    | cell :: cells => do return (← missing cell, ← rest.decode cells)
    | [] => Option.none

/-- A field that must be there. -/
def req {α β : Type} (name : String) (c : Codec α) (rest : Fields β) : Fields (α × β) :=
  cons name c (fun _ => Option.none) rest

/-- A field that an object may leave out in place of `null`. -/
def opt {α β : Type} (name : String) (c : Codec α) (rest : Fields β) : Fields (Option α × β) :=
  cons name c.nullable
    (fun
      | .absent => some Option.none
      | _ => Option.none) rest

/-- A field with a value of its own where it is missing. -/
def dft {α β : Type} (name : String) (c : Codec α) (default : α) (rest : Fields β) :
    Fields (α × β) :=
  cons name c (fun _ => some default) rest

end Fields

/-- The cell of a field in an object, unless its name stands twice. -/
def cell? (members : List (String × Json)) (name : String) : Option Cell :=
  match members.filter (·.1 == name) with
  | [] => some .absent
  | [(_, j)] => some (.given j)
  | _ => none

def cells? (names : List String) (strict : Bool) : Json → Option (List Cell)
  | .obj members =>
    if strict && !members.all (fun m => names.contains m.1) then none
    else names.mapM (cell? members)
  | .arr items =>
    if names.length < items.length then none
    else some (items.map .given ++ List.replicate (names.length - items.length) .cut)
  | _ => none

/-- The values of a record's fields. -/
def fields {β : Type} (strict : Bool) (fs : Fields β) : Codec β where
  encode b := .obj (fs.names.zip (fs.encode b))
  decode j := cells? fs.names strict j >>= fs.decode

def record {α β : Type} (strict : Bool) (fs : Fields β) (form : α → β) (of : β → α) : Codec α :=
  (fields strict fs).mapped form fun b => some (of b)

end Codec

end EpochRewards
