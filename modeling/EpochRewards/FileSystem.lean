/-!
File systems: folders and text files, reached by paths.

A path is followed name by name. Whatever it passes has to be a folder, also in front of a name
that stays there or leads back.
-/

namespace EpochRewards

/-! ### Paths -/

structure Path where
  absolute : Bool
  /-- what stands between the slashes -/
  names : List String
  deriving DecidableEq

namespace Path

def ofString (s : String) : Path :=
  match s.toList with
  | [] => ⟨false, []⟩
  | '/' :: cs => ⟨true, (String.ofList cs).splitOn "/"⟩
  | _ => ⟨false, s.splitOn "/"⟩

/-- The path that stays at the current folder. -/
def here : Path := ⟨false, ["."]⟩

def isEmpty (p : Path) : Bool := !p.absolute && p.names.isEmpty

/-- The bytes of the text of a path and of a mark at its end. -/
def byteCount (p : Path) : Nat :=
  p.names.foldl (fun n name => n + name.utf8ByteSize + 1) p.absolute.toNat

/-- Whether a name stays at the folder in which it is looked up. -/
def stays (name : String) : Bool := name == "" || name == "."

def dropFromEnd (f : String → Bool) (names : List String) : List String :=
  (names.reverse.dropWhile f).reverse

/-- The path without slashes at its end. -/
def withoutSlashes (p : Path) : Path := { p with names := dropFromEnd (· == "") p.names }

/-- The path up to the last name that does not stay, which ends in another such name. -/
def parent (p : Path) : Path :=
  { p with names := dropFromEnd stays (dropFromEnd stays p.names).dropLast }

/-- The path that goes on with another one, unless that starts anew. A slash at the end of the
first is the one between them. -/
def join (p : Path) (q : Path) : Path :=
  if q.absolute then q
  else if p.names.getLast? = some "" then { p with names := p.names.dropLast ++ q.names }
  else { p with names := p.names ++ q.names }

theorem length_dropFromEnd (f : String → Bool) (names : List String) :
    (dropFromEnd f names).length ≤ names.length := by
  have := (List.dropWhile_sublist f (l := names.reverse)).length_le
  simp only [List.length_reverse] at this
  simp only [dropFromEnd, List.length_reverse]
  exact this

theorem length_parent {p : Path} (h : p.names ≠ []) : p.parent.names.length < p.names.length := by
  have whole : 0 < p.names.length := List.length_pos_iff.2 h
  have inner := length_dropFromEnd stays p.names
  have outer := length_dropFromEnd stays (dropFromEnd stays p.names).dropLast
  simp only [List.length_dropLast] at outer
  simp only [parent]
  omega

end Path

/-! ### Nodes -/

/-- The names on the way from the root. -/
abbrev Location := List String

inductive Node where
  | folder
  | file (text : String)
  deriving DecidableEq

inductive PathError where
  | notFound
  /-- a file stands where a folder is needed -/
  | notFolder
  /-- a folder stands where a file is needed -/
  | isFolder
  /-- something stands where a folder is to be made -/
  | occupied
  | tooLong
  /-- a null character is in the path -/
  | illegal
  deriving DecidableEq

def PathError.message : PathError → String
  | notFound => "nothing is there"
  | notFolder => "a file is in the way"
  | isFolder => "a folder is no file"
  | occupied => "something is there already"
  | tooLong => "the path is too long"
  | illegal => "a path has no null characters"

structure FileSystem where
  /-- everything but the root, with the latest changes first -/
  nodes : List (Location × Node)
  /-- the folder at which paths start that are not absolute -/
  current : Location
  deriving DecidableEq

namespace FileSystem

def empty : FileSystem := ⟨[], []⟩

def get? (fs : FileSystem) (l : Location) : Option Node :=
  if l = [] then some .folder else fs.nodes.lookup l

def remove (fs : FileSystem) (l : Location) : FileSystem :=
  { fs with nodes := fs.nodes.filter (·.1 != l) }

def put (fs : FileSystem) (l : Location) (n : Node) : FileSystem :=
  { fs with nodes := (l, n) :: (fs.remove l).nodes }

theorem lookup_filter_ne {l m : Location} (h : m ≠ l) (nodes : List (Location × Node)) :
    (nodes.filter (·.1 != l)).lookup m = nodes.lookup m := by
  induction nodes with
  | nil => rfl
  | cons x rest ih =>
    obtain ⟨k, n⟩ := x
    by_cases hk : k = l
    · have hm : (m == k) = false := beq_eq_false_iff_ne.2 (fun e => h (e.trans hk))
      simp only [List.filter_cons, hk, bne_self_eq_false, Bool.false_eq_true, if_false, ih]
      simp only [List.lookup_cons, ← hk, hm]
    · have hl : (k != l) = true := bne_iff_ne.2 hk
      simp only [List.filter_cons, hl, if_true, List.lookup_cons, ih]

theorem get?_put (fs : FileSystem) (l m : Location) (n : Node) (h : l ≠ []) :
    (fs.put l n).get? m = if m = l then some n else fs.get? m := by
  unfold get? put remove
  by_cases hm : m = l
  · subst hm
    simp only [h, if_false, if_true, List.lookup_cons, BEq.rfl]
  · have hb : (m == l) = false := beq_eq_false_iff_ne.2 hm
    simp only [hm, if_false, List.lookup_cons, hb, lookup_filter_ne hm]

/-- The texts of the files directly in a folder. -/
def files (fs : FileSystem) (folder : Location) : List (String × String) :=
  fs.nodes.filterMap fun
    | (l, .file text) =>
      if l.dropLast = folder then l.getLast?.map (·, text) else none
    | _ => none

def readAt (fs : FileSystem) (l : Location) : Except PathError String :=
  match fs.get? l with
  | some (.file text) => .ok text
  | some .folder => .error .isFolder
  | none => .error .notFound

/-- Writes a file into a folder that is there. -/
def writeAt (fs : FileSystem) (l : Location) (text : String) : Except PathError FileSystem :=
  if fs.get? l = some .folder then .error .isFolder else .ok (fs.put l (.file text))

/-- Puts a file in the place of another. -/
def moveAt (fs : FileSystem) (l m : Location) : Except PathError FileSystem := do
  let text ← fs.readAt l
  (fs.remove l).writeAt m text

/-! ### Following paths -/

/-- The most bytes of a name. -/
def maxNameBytes : Nat := 255

/-- The most bytes of a path and of the mark at its end. -/
def maxPathBytes : Nat := 4096

/-- The location that names lead to. There may be nothing, but the folder around it is there. -/
def follow (fs : FileSystem) : Location → List String → Except PathError Location
  | l, [] => .ok l
  | l, name :: rest =>
    match fs.get? l with
    | none => .error .notFound
    | some (.file _) => .error .notFolder
    | some .folder =>
      if Path.stays name then fs.follow l rest
      else if name = ".." then fs.follow l.dropLast rest
      else if maxNameBytes < name.utf8ByteSize then .error .tooLong
      else fs.follow (l ++ [name]) rest

/-- Whether a path can be one, whatever is there. -/
def check (p : Path) : Except PathError Unit :=
  if p.isEmpty then .error .notFound
  else if p.names.any (·.toList.contains '\x00') then .error .illegal
  else if maxPathBytes < p.byteCount then .error .tooLong
  else .ok ()

/-- The location that a path leads to; its length is not looked at. -/
def walk (fs : FileSystem) (p : Path) : Except PathError Location :=
  fs.follow (if p.absolute then [] else fs.current) p.names

def locate (fs : FileSystem) (p : Path) : Except PathError Location := do
  check p
  fs.walk p

def isFolder (fs : FileSystem) (p : Path) : Bool :=
  match fs.locate p with
  | .ok l => fs.get? l = some .folder
  | .error _ => false

def read (fs : FileSystem) (p : Path) : Except PathError String := do
  fs.readAt (← fs.locate p)

/-- The text of the file at a path, if it can be had. -/
def text? (fs : FileSystem) (path : String) : Option String := (fs.read (.ofString path)).toOption

def write (fs : FileSystem) (p : Path) (text : String) : Except PathError FileSystem := do
  fs.writeAt (← fs.locate p) text

def move (fs : FileSystem) (p q : Path) : Except PathError FileSystem := do
  fs.moveAt (← fs.locate p) (← fs.locate q)

/-- Makes a folder; slashes at the end only count for the length. -/
def makeFolder (fs : FileSystem) (p : Path) : Except PathError FileSystem := do
  check p
  let l ← fs.walk p.withoutSlashes
  match fs.get? l with
  | some _ => .error .occupied
  | none => .ok (fs.put l .folder)

/-- Makes a folder that is not there already. -/
def ensureFolder (fs : FileSystem) (p : Path) : Except PathError FileSystem :=
  match fs.makeFolder p with
  | .ok fs => .ok fs
  | .error e => if fs.isFolder p then .ok fs else .error e

/-- Makes a folder and those around it. The folder around is only made where it is missed. -/
def makeFolders (fs : FileSystem) (p : Path) : Except PathError FileSystem :=
  if p.isEmpty then .ok fs
  else
    match fs.ensureFolder p with
    | .error .notFound =>
      if h : p.names = [] then .error .notFound
      else
        have := Path.length_parent h
        (fs.makeFolders p.parent).bind (·.ensureFolder p)
    | result => result
  termination_by p.names.length

/-- Writes a file into a folder that is made for it, or removes the file if there is one. -/
def change (fs : FileSystem) (p : Path) : Option String → Except PathError FileSystem
  | some text => do (← fs.makeFolders p.parent).write p text
  | none =>
    match fs.read p, fs.locate p with
    | .ok _, .ok l => .ok (fs.remove l)
    | _, _ => .ok fs

end FileSystem

end EpochRewards
