/-!
JSON values as the program distinguishes them.

Every quantity is an integer, so a number is a word, a negative 64-bit integer or some other
number, of which only the literal is kept. A part of a text that follows the grammar but
stands for no value, such as an unpaired surrogate, is `unreadable`: it can be skipped, never read.
-/

namespace EpochRewards

inductive Json where
  | null
  | bool (b : Bool)
  | nat (n : Nat)
  | neg (magnitude : Nat)
  | real (literal : String)
  | str (s : String)
  | arr (items : List Json)
  | obj (members : List (String × Json))
  | unreadable

namespace Json

instance : Inhabited Json := ⟨.null⟩

mutual

/-- No part of the value is unreadable. -/
def readable : Json → Bool
  | .unreadable => false
  | .arr items => readableItems items
  | .obj members => readableMembers members
  | _ => true

def readableItems : List Json → Bool
  | [] => true
  | j :: rest => readable j && readableItems rest

def readableMembers : List (String × Json) → Bool
  | [] => true
  | (_, j) :: rest => readable j && readableMembers rest

end

mutual

/-- The number of arrays and objects around the innermost value. -/
def depth : Json → Nat
  | .arr items => depthItems items + 1
  | .obj members => depthMembers members + 1
  | _ => 0

def depthItems : List Json → Nat
  | [] => 0
  | j :: rest => max (depth j) (depthItems rest)

def depthMembers : List (String × Json) → Nat
  | [] => 0
  | (_, j) :: rest => max (depth j) (depthMembers rest)

end

/-- The value of a member; of several of one name, the last. -/
def get? (j : Json) (name : String) : Option Json :=
  match j with
  | .obj members => (members.reverse.find? (·.1 == name)).map (·.2)
  | _ => none

/-- Replaces the member of that name where it stands, or adds it at the end. -/
def setMember (name : String) (value : Json) : List (String × Json) → List (String × Json)
  | [] => [(name, value)]
  | (n, j) :: rest =>
    if n = name then (n, value) :: rest else (n, j) :: setMember name value rest

end Json

end EpochRewards
