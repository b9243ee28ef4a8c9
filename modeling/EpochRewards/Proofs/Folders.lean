import EpochRewards.FileSystem
import Mathlib.Algebra.Ring.Nat
import Mathlib.Data.List.Basic
import Mathlib.Tactic.Common

/-!
Paths to the files of a folder.

A path that leads to a folder leads there as long as no folder gives way, whatever happens to
files. Another name at its end leads to a place in the folder.
-/

namespace EpochRewards

/-! ### Lengths -/

namespace Path

lemma foldl_bytes (names : List String) (n : Nat) :
    names.foldl (fun n name => n + name.utf8ByteSize + 1) n
      = n + (names.map fun name => name.utf8ByteSize + 1).sum := by
  induction names generalizing n with
  | nil => simp
  | cons name names ih =>
    rw [List.foldl_cons, ih, List.map_cons, List.sum_cons]
    omega

/-- The longer of two names makes the longer path. -/
lemma byteCount_join_le (p : Path) {a b : String} (h : a.utf8ByteSize ≤ b.utf8ByteSize) :
    (p.join ⟨false, [a]⟩).byteCount ≤ (p.join ⟨false, [b]⟩).byteCount := by
  have hnames (names : List String) :
      (Path.mk p.absolute (names ++ [a])).byteCount
        ≤ (Path.mk p.absolute (names ++ [b])).byteCount := by
    simp only [byteCount, foldl_bytes, List.map_append, List.sum_append, List.map_cons,
      List.map_nil, List.sum_cons, List.sum_nil]
    omega
  simp only [join, Bool.false_eq_true, if_false]
  split <;> exact hnames _

/-- What is dropped from the end of a list of names passes the test. -/
lemma exists_dropFromEnd (f : String → Bool) (names : List String) :
    ∃ tail, names = dropFromEnd f names ++ tail ∧ ∀ name ∈ tail, f name = true := by
  refine ⟨(names.reverse.takeWhile f).reverse, ?_, ?_⟩
  · rw [dropFromEnd, ← List.reverse_append, List.takeWhile_append_dropWhile, List.reverse_reverse]
  · intro name hname
    have htaken := List.all_takeWhile (l := names.reverse) (p := f)
    exact List.all_eq_true.1 htaken name (List.mem_reverse.1 hname)

end Path

namespace FileSystem

variable {fs fs' : FileSystem} {l m : Location} {names : List String} {p : Path}

/-! ### Following -/

/-- Names are followed one part after another. -/
lemma follow_append (names more : List String) :
    fs.follow l (names ++ more) = (fs.follow l names).bind fun m => fs.follow m more := by
  induction names generalizing l with
  | nil => rfl
  | cons name names ih =>
    rw [List.cons_append, follow, follow]
    split
    · rfl
    · rfl
    · split
      · exact ih
      · split
        · exact ih
        · split
          · rfl
          · exact ih

/-- Names that stay lead to where they are followed from. -/
lemma follow_stays {tail : List String} (ht : ∀ name ∈ tail, Path.stays name = true)
    (h : fs.follow l tail = .ok m) : m = l := by
  induction tail with
  | nil =>
    cases h
    rfl
  | cons name tail ih =>
    have hname := ht name List.mem_cons_self
    have hrest := ih fun x hx => ht x (List.mem_cons_of_mem _ hx)
    rw [follow] at h
    split at h
    · cases h
    · cases h
    · rw [if_pos hname] at h
      exact hrest h

/-- The folders of one file system are there in another, and paths start at the same one. -/
structure Keeps (fs fs' : FileSystem) : Prop where
  current : fs'.current = fs.current
  folders : ∀ l, fs.get? l = some .folder → fs'.get? l = some .folder

lemma Keeps.trans {fs'' : FileSystem} (h : Keeps fs fs') (h' : Keeps fs' fs'') : Keeps fs fs'' :=
  ⟨h'.current.trans h.current, fun l hl => h'.folders l (h.folders l hl)⟩

lemma Keeps.follow (hk : Keeps fs fs') (h : fs.follow l names = .ok m) :
    fs'.follow l names = .ok m := by
  induction names generalizing l with
  | nil => exact h
  | cons name names ih =>
    rw [FileSystem.follow] at h ⊢
    split at h
    · cases h
    · cases h
    · next hl =>
      rw [hk.folders l hl]
      dsimp only
      split at h
      · next hs =>
        rw [if_pos hs]
        exact ih h
      · next hs =>
        rw [if_neg hs]
        split at h
        · next hup =>
          rw [if_pos hup]
          exact ih h
        · next hup =>
          rw [if_neg hup]
          split at h
          · cases h
          · next hlong =>
            rw [if_neg hlong]
            exact ih h

lemma locate_ok : fs.locate p = .ok l ↔ check p = .ok () ∧ fs.walk p = .ok l := by
  unfold locate
  constructor
  · intro h
    cases hc : check p with
    | error e =>
      rw [hc] at h
      cases h
    | ok u =>
      rw [hc] at h
      exact ⟨rfl, h⟩
  · rintro ⟨hc, hw⟩
    rw [hc]
    exact hw

lemma Keeps.locate (hk : Keeps fs fs') (h : fs.locate p = .ok l) : fs'.locate p = .ok l := by
  obtain ⟨hcheck, hwalk⟩ := locate_ok.1 h
  refine locate_ok.2 ⟨hcheck, ?_⟩
  rw [walk, hk.current]
  exact hk.follow hwalk

/-! ### Places in a folder -/

/-- A name that leads down. -/
structure Leads (name : String) : Prop where
  moves : Path.stays name = false
  notUp : name ≠ ".."
  short : name.utf8ByteSize ≤ maxNameBytes
  legal : '\x00' ∉ name.toList

lemma follow_last {name : String} (hn : Leads name) (hl : fs.get? l = some .folder) :
    fs.follow l [name] = .ok (l ++ [name]) := by
  rw [follow, hl]
  dsimp only
  rw [if_neg (by rw [hn.moves]; exact Bool.false_ne_true), if_neg hn.notUp,
    if_neg (Nat.not_lt.2 hn.short), follow]

lemma follow_append_ok {more : List String} :
    fs.follow l (names ++ more) = .ok m
      ↔ ∃ k, fs.follow l names = .ok k ∧ fs.follow k more = .ok m := by
  rw [follow_append]
  cases fs.follow l names with
  | error e =>
    constructor
    · intro h
      cases h
    · rintro ⟨k, h, -⟩
      cases h
  | ok k =>
    constructor
    · intro h
      exact ⟨k, rfl, h⟩
    · rintro ⟨_, ⟨⟩, h⟩
      exact h

lemma check_ok : check p = .ok () ↔ p.isEmpty = false ∧
    p.names.any (·.toList.contains '\x00') = false ∧ p.byteCount ≤ maxPathBytes := by
  unfold check
  cases p.isEmpty <;> cases p.names.any (·.toList.contains '\x00') <;> simp

lemma check_join {name : String} (hn : Leads name) (h : check p = .ok ())
    (hroom : (p.join ⟨false, [name]⟩).byteCount ≤ maxPathBytes) :
    check (p.join ⟨false, [name]⟩) = .ok () := by
  obtain ⟨-, hlegal, -⟩ := check_ok.1 h
  refine check_ok.2 ⟨?_, ?_, hroom⟩
  · simp only [Path.join, Bool.false_eq_true, if_false]
    split <;> simp [Path.isEmpty]
  · have hname : name.toList.contains '\x00' = false := by
      simpa using hn.legal
    simp only [List.any_eq_false] at hlegal ⊢
    simp only [Path.join, Bool.false_eq_true, if_false]
    intro x hx
    split at hx
    · rcases List.mem_append.1 hx with hx | hx
      · exact hlegal x (List.dropLast_subset _ hx)
      · rw [List.mem_singleton.1 hx, hname]
        exact Bool.false_ne_true
    · rcases List.mem_append.1 hx with hx | hx
      · exact hlegal x hx
      · rw [List.mem_singleton.1 hx, hname]
        exact Bool.false_ne_true

lemma walk_join {name : String} (hn : Leads name) (h : fs.walk p = .ok l)
    (hl : fs.get? l = some .folder) : fs.walk (p.join ⟨false, [name]⟩) = .ok (l ++ [name]) := by
  have hlast := follow_last hn hl
  simp only [Path.join, Bool.false_eq_true, if_false]
  split
  · next hslash =>
    -- The empty name after a slash at the end stays where it is, so it can be left out.
    have hsplit : p.names = p.names.dropLast ++ [""] := by
      obtain ⟨before, hbefore⟩ := List.getLast?_eq_some_iff.1 hslash
      rw [hbefore, List.dropLast_concat]
    rw [walk, hsplit] at h
    obtain ⟨k, hk, hstay⟩ := follow_append_ok.1 h
    have hsame : l = k := follow_stays (by simp [Path.stays]) hstay
    exact follow_append_ok.2 ⟨k, hk, hsame ▸ hlast⟩
  · exact follow_append_ok.2 ⟨l, h, hlast⟩

/-- A path to a folder and a name lead to a place in it. -/
lemma locate_join {name : String} (hn : Leads name) (h : fs.locate p = .ok l)
    (hl : fs.get? l = some .folder)
    (hroom : (p.join ⟨false, [name]⟩).byteCount ≤ maxPathBytes) :
    fs.locate (p.join ⟨false, [name]⟩) = .ok (l ++ [name]) := by
  obtain ⟨hcheck, hwalk⟩ := locate_ok.1 h
  exact locate_ok.2 ⟨check_join hn hcheck hroom, walk_join hn hwalk hl⟩

/-! ### Folders that are there -/

lemma isFolder_iff :
    fs.isFolder p = true ↔ ∃ l, fs.locate p = .ok l ∧ fs.get? l = some .folder := by
  unfold isFolder
  cases fs.locate p with
  | error e => simp
  | ok l => simp

lemma walk_withoutSlashes (h : fs.walk p = .ok l) : fs.walk p.withoutSlashes = .ok l := by
  obtain ⟨tail, hnames, htail⟩ := Path.exists_dropFromEnd (· == "") p.names
  rw [walk, hnames] at h
  obtain ⟨k, hk, hstay⟩ := follow_append_ok.1 h
  have hsame : l = k := follow_stays (fun name hname => ?_) hstay
  · rw [hsame]
    exact hk
  · rw [Path.stays, htail name hname, Bool.true_or]

/-- A folder that is there is not made again. -/
lemma makeFolders_eq (h : fs.isFolder p = true) : fs.makeFolders p = .ok fs := by
  obtain ⟨l, hlocate, hl⟩ := isFolder_iff.1 h
  obtain ⟨hcheck, hwalk⟩ := locate_ok.1 hlocate
  have hmake : fs.makeFolder p = .error .occupied := by
    simp only [makeFolder, hcheck, walk_withoutSlashes hwalk, bind, Except.bind, hl]
  have hensure : fs.ensureFolder p = .ok fs := by
    unfold ensureFolder
    rw [hmake]
    exact if_pos h
  unfold makeFolders
  rw [hensure]
  exact ite_self _

/-! ### Changes to files -/

lemma get?_remove (fs : FileSystem) {l : Location} (h : l ≠ []) (m : Location) :
    (fs.remove l).get? m = if m = l then none else fs.get? m := by
  unfold get? remove
  by_cases hm : m = l
  · subst hm
    rw [if_neg h, if_pos rfl, List.lookup_eq_none_iff]
    intro x hx
    have hother : x.1 ≠ m := bne_iff_ne.1 (List.mem_filter.1 hx).2
    exact bne_iff_ne.2 hother.symm
  · rw [if_neg hm, lookup_filter_ne hm]

lemma keeps_put {text : String} (hl : l ≠ []) (hf : fs.get? l ≠ some .folder) :
    Keeps fs (fs.put l (.file text)) := by
  refine ⟨rfl, fun m hm => ?_⟩
  rw [get?_put _ _ _ _ hl, if_neg]
  · exact hm
  · rintro rfl
    exact hf hm

lemma keeps_remove (hl : l ≠ []) (hf : fs.get? l ≠ some .folder) : Keeps fs (fs.remove l) := by
  refine ⟨rfl, fun m hm => ?_⟩
  rw [get?_remove _ hl, if_neg]
  · exact hm
  · rintro rfl
    exact hf hm

lemma write_eq {text : String} (h : fs.locate p = .ok l) (hf : fs.get? l ≠ some .folder) :
    fs.write p text = .ok (fs.put l (.file text)) := by
  unfold write
  rw [h]
  exact if_neg hf

lemma read_eq (h : fs.locate p = .ok l) : fs.read p = fs.readAt l := by
  unfold read
  rw [h]
  rfl

/-- A file that is moved is gone from where it was and stands where it was moved to. -/
lemma move_eq {q : Path} {text : String} (hp : fs.locate p = .ok l) (hq : fs.locate q = .ok m)
    (hfile : fs.get? l = some (.file text)) (hm : (fs.remove l).get? m ≠ some .folder) :
    fs.move p q = .ok ((fs.remove l).put m (.file text)) := by
  unfold move
  rw [hp, hq]
  show (do let text ← fs.readAt l; (fs.remove l).writeAt m text) = _
  rw [readAt, hfile]
  exact if_neg hm

end FileSystem

end EpochRewards
