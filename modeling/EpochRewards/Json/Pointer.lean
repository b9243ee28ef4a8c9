import EpochRewards.Json.Value

/-!
Addressing parts of a JSON value by a pointer such as `/blocks/0/slot`.
-/

namespace EpochRewards.Json

/-- A place below a value: the names and positions on the way to it. -/
abbrev Path := List String

/-- The steps of a pointer, which is empty or starts with a slash. -/
def path? (pointer : String) : Option Path :=
  match pointer.toList with
  | [] => some []
  | '/' :: cs => some ((String.ofList cs).splitOn "/")
  | _ => none

/-- A position in an array: decimal digits without a leading zero. -/
def position? (s : String) : Option Nat :=
  match s.toList with
  | [] => none
  | ['0'] => some 0
  | '0' :: _ => none
  | cs =>
    if cs.all fun c => '0' ≤ c && c ≤ '9' then
      some (cs.foldl (fun n d => n * 10 + (d.toNat - '0'.toNat)) 0)
    else none

def child? (j : Json) (step : String) : Option Json :=
  match j with
  | .obj _ => j.get? step
  | .arr items => position? step >>= fun i => items[i]?
  | _ => none

def at? (j : Json) (path : Path) : Option Json := path.foldlM child? j

/-- Changes the part of `j` at a path, where `f` may refuse. -/
def modifyAt (f : Json → Option Json) : Path → Json → Option Json
  | [], j => f j
  | step :: path, j =>
    match j with
    | .obj members => do
      let old ← j.get? step
      let new ← modifyAt f path old
      return .obj (setMember step new members)
    | .arr items => do
      let i ← position? step
      let old ← items[i]?
      let new ← modifyAt f path old
      return .arr (items.set i new)
    | _ => none

/-- Replaces or adds a member of an object, or replaces an item of an array. -/
def setAt (j : Json) (path : Path) (value : Json) : Option Json :=
  match path.getLast? with
  | none => none
  | some step =>
    modifyAt
      (fun
        | .obj members => some (.obj (setMember step value members))
        | .arr items => do
          let i ← position? step
          if i < items.length then some (.arr (items.set i value)) else none
        | _ => none)
      path.dropLast j

/-- Adds an item at the end of the array at a path. -/
def pushAt (j : Json) (path : Path) (value : Json) : Option Json :=
  modifyAt
    (fun
      | .arr items => some (.arr (items ++ [value]))
      | _ => none)
    path j

/-- Removes an existing member or item. -/
def removeAt (j : Json) (path : Path) : Option Json :=
  match path.getLast? with
  | none => none
  | some step =>
    modifyAt
      (fun
        | .obj members =>
          if members.any (·.1 == step) then some (.obj (members.filter (·.1 != step))) else none
        | .arr items => do
          let i ← position? step
          if i < items.length then some (.arr (items.eraseIdx i)) else none
        | _ => none)
      path.dropLast j

end EpochRewards.Json
