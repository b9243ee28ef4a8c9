import EpochRewards.Json.Value

/-!
Writing JSON texts without blanks.

Strings escape the quote, the backslash and the characters below the blank, and nothing else.
-/

namespace EpochRewards.Json

def hexChar (n : Nat) : Char :=
  if n < 10 then Char.ofNat ('0'.toNat + n) else Char.ofNat ('a'.toNat + (n - 10))

def escape (c : Char) : List Char :=
  if c = '"' then ['\\', '"']
  else if c = '\\' then ['\\', '\\']
  else if c = '\x08' then ['\\', 'b']
  else if c = '\x0c' then ['\\', 'f']
  else if c = '\n' then ['\\', 'n']
  else if c = '\r' then ['\\', 'r']
  else if c = '\t' then ['\\', 't']
  else if c.toNat < 0x20 then ['\\', 'u', '0', '0', hexChar (c.toNat / 16), hexChar (c.toNat % 16)]
  else [c]

def quote (s : String) : List Char := '"' :: s.toList.flatMap escape ++ ['"']

/-- The decimal digits of a number, without leading zeros. -/
def decimal (n : Nat) : List Char := Nat.toDigits 10 n

mutual

def render : Json → List Char
  | .null => ['n', 'u', 'l', 'l']
  | .bool true => ['t', 'r', 'u', 'e']
  | .bool false => ['f', 'a', 'l', 's', 'e']
  | .nat n => decimal n
  | .neg n => '-' :: decimal n
  | .real literal => literal.toList
  | .str s => quote s
  | .arr items => '[' :: renderItems items
  | .obj members => '{' :: renderMembers members
  | .unreadable => []

/-- The items and the closing bracket. -/
def renderItems : List Json → List Char
  | [] => [']']
  | [j] => render j ++ [']']
  | j :: rest => render j ++ ',' :: renderItems rest

/-- The members and the closing brace. -/
def renderMembers : List (String × Json) → List Char
  | [] => ['}']
  | [(n, j)] => quote n ++ ':' :: render j ++ ['}']
  | (n, j) :: rest => quote n ++ ':' :: render j ++ ',' :: renderMembers rest

end

def write (j : Json) : String := String.ofList (render j)

end EpochRewards.Json
