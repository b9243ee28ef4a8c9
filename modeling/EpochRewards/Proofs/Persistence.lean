import EpochRewards.CommandLine.Run
import EpochRewards.Proofs.Folders
import EpochRewards.Proofs.Lines
import EpochRewards.Proofs.Stores

/-!
Tables in files and tables in memory.

Between two requests the file of a table holds the rows that a store in memory has of it, or is
not there as long as there are none. So the two stores answer alike, and opening the folder anew
shows the same rows.
-/

namespace EpochRewards

variable {σ : Type}

/-! ### Requests -/

/-- Whether an error says that a store turns a request down by itself. -/
def StoreError.IsRefusal : StoreError → Prop
  | closed => True
  | tableMismatch .. => True
  | unreadable _ => False
  | inaccessible _ => False

namespace Store

inductive Request where
  | persist (t : Table) (rows : List Row)
  | deleteSlot (t : Table) (slot : Slot)
  | close
  | rows (t : Table)
  deriving DecidableEq

namespace Request

/-- The figures of all rows that are handed over are within their ranges. -/
def Sized : Request → Prop
  | persist _ added => ∀ row ∈ added, row.Sized
  | _ => True

instance : (q : Request) → Decidable q.Sized
  | persist _ added => inferInstanceAs (Decidable (∀ row ∈ added, row.Sized))
  | deleteSlot .. => inferInstanceAs (Decidable True)
  | close => inferInstanceAs (Decidable True)
  | rows _ => inferInstanceAs (Decidable True)

/-- Whether a store may carry out a request; rows are shown in any case. -/
def accepted (closed : Bool) : Request → Except StoreError Unit
  | persist t added => accepts closed t added
  | deleteSlot t _ => accepts closed t []
  | close => if closed then .error .closed else .ok ()
  | rows _ => .ok ()

end Request

inductive Answer where
  | done
  | shown (rows : List Row)
  | failed (e : StoreError)
  deriving DecidableEq

def settle : EStateM.Result StoreError σ Unit → Answer × σ
  | .ok _ s => (.done, s)
  | .error e s => (.failed e, s)

/-- The answer to a request and the store after it. -/
def answer (st : Store σ) (s : σ) : Request → Answer × σ
  | .persist t rows => settle (st.persist t rows s)
  | .deleteSlot t slot => settle (st.deleteSlot t slot s)
  | .close => settle (st.close s)
  | .rows t =>
    match st.rows s t with
    | .ok rows => (.shown rows, s)
    | .error e => (.failed e, s)

/-- The answers to requests that are made one after another, and the store after the last. -/
def answers (st : Store σ) (s : σ) : List Request → List Answer × σ
  | [] => ([], s)
  | q :: qs =>
    let a := st.answer s q
    let rest := st.answers a.2 qs
    (a.1 :: rest.1, rest.2)

lemma accepts_ok {closed : Bool} {t : Table} {rows : List Row} :
    accepts closed t rows = .ok () ↔ closed = false ∧ ∀ row ∈ rows, row.table = t := by
  have hfind : rows.find? (·.table != t) = none ↔ ∀ row ∈ rows, row.table = t := by
    simp [List.find?_eq_none]
  unfold accepts
  cases closed with
  | true => simp
  | false =>
    rw [← hfind]
    cases rows.find? (·.table != t) <;> simp

lemma isRefusal_accepts {closed : Bool} {t : Table} {rows : List Row} {e : StoreError}
    (h : accepts closed t rows = .error e) : e.IsRefusal := by
  unfold accepts at h
  split at h
  · cases h
    trivial
  · split at h
    · cases h
      trivial
    · cases h

lemma accepted_close {closed : Bool} {e : StoreError}
    (h : Request.close.accepted closed = .error e) : closed = true ∧ e = .closed := by
  cases closed with
  | true =>
    cases h
    exact ⟨rfl, rfl⟩
  | false => cases h

lemma isRefusal_accepted {closed : Bool} {q : Request} {e : StoreError}
    (h : q.accepted closed = .error e) : e.IsRefusal := by
  cases q with
  | persist t rows => exact isRefusal_accepts h
  | deleteSlot t slot => exact isRefusal_accepts (show accepts closed t [] = .error e from h)
  | close =>
    obtain ⟨-, rfl⟩ := accepted_close h
    trivial
  | rows t => cases h

/-- A computation that stops before it changes anything. -/
lemma lift_error {α : Type} {x : Except StoreError α} {f : α → StoreOp σ Unit} {e : StoreError}
    {s : σ} (h : x = .error e) : (liftM x >>= f) s = .error e s := by
  rw [h]
  rfl

lemma closing_run (closed : σ → Bool) (shut : σ → σ) (s : σ) :
    (do
      let s ← get
      if closed s then throw .closed else set (shut s) : StoreOp σ Unit) s
      = if closed s then .error .closed s else .ok () (shut s) := by
  show (if closed s then throw .closed else set (shut s) : StoreOp σ Unit) s = _
  split <;> rfl

/-- A store that turns requests down before it does anything else. -/
structure Guarded (st : Store σ) : Prop where
  persist : ∀ s t rows e, accepts (st.isClosed s) t rows = .error e →
    st.persist t rows s = .error e s
  deleteSlot : ∀ s t slot e, accepts (st.isClosed s) t [] = .error e →
    st.deleteSlot t slot s = .error e s
  close : ∀ s, st.isClosed s = true → st.close s = .error .closed s

/-- A request that is turned down changes nothing. -/
lemma Guarded.answer {st : Store σ} (hst : st.Guarded) {s : σ} {q : Request} {e : StoreError}
    (h : q.accepted (st.isClosed s) = .error e) : st.answer s q = (.failed e, s) := by
  cases q with
  | persist t added => exact congrArg settle (hst.persist s t added e h)
  | deleteSlot t slot => exact congrArg settle (hst.deleteSlot s t slot e h)
  | close =>
    obtain ⟨hclosed, rfl⟩ := accepted_close h
    exact congrArg settle (hst.close s hclosed)
  | rows t => cases h

end Store

/-! ### The store in memory -/

namespace MemoryStore

open Store

variable {m : MemoryStore}

lemma set_rows (m : MemoryStore) (t : Table) :
    { m with tables := m.tables.set t (m.rows t) } = m := by
  refine ext_rows rfl fun u => ?_
  show (m.tables.set t (m.rows t)).get u = m.rows u
  rw [PerTable.get_set]
  split
  · next hu => rw [hu]
  · rfl

lemma answer_persist {t : Table} {rows : List Row} (h : accepts m.closed t rows = .ok ()) :
    store.answer m (.persist t rows)
      = (.done, { m with tables := m.tables.set t (m.rows t ++ rows) }) := by
  obtain ⟨hopen, hrows⟩ := accepts_ok.1 h
  exact congrArg settle (Writer.call_eq_true.1 (call_persist hopen hrows))

lemma answer_deleteSlot {t : Table} {slot : Slot} (h : accepts m.closed t [] = .ok ()) :
    store.answer m (.deleteSlot t slot)
      = (.done, { m with tables := m.tables.set t ((m.rows t).filter (·.slot != slot)) }) :=
  congrArg settle (Writer.call_eq_true.1 (call_deleteSlot (accepts_ok.1 h).1 t slot))

lemma close_run (m : MemoryStore) :
    close m = if m.closed then .error .closed m else .ok () { m with closed := true } :=
  closing_run MemoryStore.closed (fun m => { m with closed := true }) m

lemma guarded_store : store.Guarded where
  persist _ _ _ _ h := lift_error h
  deleteSlot _ _ _ _ h := lift_error h
  close m h := (close_run m).trans (if_pos h)

end MemoryStore

/-! ### The store in files -/

namespace FileStore

open Store

/-- Opens the store in a folder that is made if it is not there. -/
def persistent (fs : FileSystem) (p : Path) : Except PathError FileStore := do
  openAt (← fs.makeFolders p) p

lemma openStore_eq (a : CommandLine.Assignment) (fs : FileSystem) :
    a.openStore fs = persistent fs (.ofString a.outputDirectory) :=
  rfl

/-- Nothing is in the folder of the store. -/
def Vacant (s : FileStore) : Prop :=
  ∃ l, s.system.locate s.directory = .ok l ∧ ∀ name, s.system.get? (l ++ [name]) = none

/-- No path to a file of the store is too long, so that nothing keeps its files from being used. -/
def Roomy (s : FileStore) : Prop :=
  ∀ t, (s.place (draftName t)).byteCount ≤ FileSystem.maxPathBytes

lemma leads_fileName (t : Table) : FileSystem.Leads (fileName t) := by
  cases t <;> exact ⟨by decide, by decide, by decide, by decide⟩

lemma leads_draftName (t : Table) : FileSystem.Leads (draftName t) := by
  cases t <;> exact ⟨by decide, by decide, by decide, by decide⟩

lemma fileName_size_le (t : Table) : (fileName t).utf8ByteSize ≤ (draftName t).utf8ByteSize := by
  cases t <;> decide

lemma fileName_inj {t u : Table} : fileName t = fileName u ↔ t = u := by
  cases t <;> cases u <;> decide

lemma fileName_ne_draftName (t u : Table) : fileName t ≠ draftName u := by
  cases t <;> cases u <;> decide

lemma file_ne_file {t u : Table} (l : Location) (h : u ≠ t) :
    l ++ [fileName u] ≠ l ++ [fileName t] := by
  simpa [fileName_inj] using h

lemma file_ne_draft (l : Location) (t u : Table) : l ++ [fileName t] ≠ l ++ [draftName u] := by
  simpa using fileName_ne_draftName t u

/-- The file of a table holds its rows. There may be no file as long as there are none. -/
def Holds (fs : FileSystem) (l : Location) (t : Table) (rows : List Row) : Prop :=
  fs.get? (l ++ [fileName t]) = some (.file (render rows)) ∨
    fs.get? (l ++ [fileName t]) = none ∧ rows = []

/-- A store in files whose folder is at `l`, next to one in memory with the same contents. -/
structure Mirrors (p : Path) (l : Location) (f : FileStore) (m : MemoryStore) : Prop where
  directory : f.directory = p
  located : f.system.locate p = .ok l
  folder : f.system.get? l = some .folder
  roomy : f.Roomy
  closed : f.closed = m.closed
  holds : ∀ t, Holds f.system l t (m.rows t)
  drafts : ∀ t, f.system.get? (l ++ [draftName t]) ≠ some .folder
  sorted : ∀ t, ∀ row ∈ m.rows t, row.Sized ∧ row.table = t

variable {p : Path} {l : Location} {f : FileStore} {m : MemoryStore} {t : Table}

namespace Mirrors

lemma locate_draft (h : Mirrors p l f m) (t : Table) :
    f.system.locate (f.place (draftName t)) = .ok (l ++ [draftName t]) :=
  FileSystem.locate_join (leads_draftName t) (h.directory ▸ h.located) h.folder (h.roomy t)

lemma locate_file (h : Mirrors p l f m) (t : Table) :
    f.system.locate (f.place (fileName t)) = .ok (l ++ [fileName t]) :=
  have hroom := Nat.le_trans (Path.byteCount_join_le _ (fileName_size_le t)) (h.roomy t)
  FileSystem.locate_join (leads_fileName t) (h.directory ▸ h.located) h.folder hroom

lemma file_ne_folder (h : Mirrors p l f m) (t : Table) :
    f.system.get? (l ++ [fileName t]) ≠ some .folder := by
  rcases h.holds t with ht | ⟨ht, -⟩
  · simp [ht]
  · simp [ht]

/-- The text of a table is that of its rows, empty if there is no file. -/
lemma text?_eq (h : Mirrors p l f m) (t : Table) :
    ∃ text, f.text? t = .ok text ∧ text.getD "" = render (m.rows t) ∧
      (text = none → m.rows t = []) := by
  unfold text?
  rw [FileSystem.read_eq (h.locate_file t), FileSystem.readAt]
  rcases h.holds t with ht | ⟨ht, hnone⟩
  · rw [ht]
    exact ⟨some (render (m.rows t)), rfl, rfl, fun h => by cases h⟩
  · rw [ht, hnone]
    exact ⟨none, rfl, rfl, fun _ => rfl⟩

/-- **The rows that are read are those of the store in memory.** -/
theorem rows_eq (h : Mirrors p l f m) (t : Table) : f.rows t = .ok (m.rows t) := by
  obtain ⟨text, htext, hrender, hnone⟩ := h.text?_eq t
  unfold rows
  rw [htext]
  cases text with
  | none => exact congrArg Except.ok (hnone rfl).symm
  | some text =>
    show parse t text = _
    have hsame : text = render (m.rows t) := hrender
    rw [hsame, parse_render (h.sorted t)]

/-! ### Requests to both stores -/

lemma rewritten (h : Mirrors p l f m) {fs : FileSystem} {rows : List Row}
    (hkeeps : FileSystem.Keeps f.system fs)
    (htext : fs.get? (l ++ [fileName t]) = some (.file (render rows)))
    (hothers : ∀ u, u ≠ t → fs.get? (l ++ [fileName u]) = f.system.get? (l ++ [fileName u]))
    (hdrafts : ∀ u, fs.get? (l ++ [draftName u]) ≠ some .folder)
    (hsorted : ∀ row ∈ rows, row.Sized ∧ row.table = t) :
    Mirrors p l { f with system := fs } { m with tables := m.tables.set t rows } where
  directory := h.directory
  located := hkeeps.locate h.located
  folder := hkeeps.folders l h.folder
  roomy := h.roomy
  closed := h.closed
  drafts := hdrafts
  holds u := by
    show Holds fs l u ((m.tables.set t rows).get u)
    rw [PerTable.get_set]
    by_cases hu : u = t
    · subst hu
      rw [if_pos rfl]
      exact .inl htext
    · rw [if_neg hu, Holds, hothers u hu]
      exact h.holds u
  sorted u := by
    show ∀ row ∈ (m.tables.set t rows).get u, row.Sized ∧ row.table = u
    rw [PerTable.get_set]
    by_cases hu : u = t
    · subst hu
      rw [if_pos rfl]
      exact hsorted
    · rw [if_neg hu]
      exact h.sorted u

/-- Rows are added at the end of the text. -/
lemma answer_persist (h : Mirrors p l f m) {added : List Row}
    (ha : accepts f.closed t added = .ok ()) :
    ∃ f', store.answer f (.persist t added) = (.done, f') ∧
      ((∀ row ∈ added, row.Sized) →
        Mirrors p l f' { m with tables := m.tables.set t (m.rows t ++ added) }) := by
  obtain ⟨text, htext, hrender, -⟩ := h.text?_eq t
  have hfile := h.file_ne_folder t
  have hplace : l ++ [fileName t] ≠ [] := by simp
  let fs := f.system.put (l ++ [fileName t]) (.file (text.getD "" ++ render added))
  have hwrite : f.system.write (f.place (fileName t)) (text.getD "" ++ render added) = .ok fs :=
    FileSystem.write_eq (h.locate_file t) hfile
  have hcall : persist t added f = .ok () { f with system := fs } := by
    simp only [persist, Pass.bind_ok, Pass.get_ok, Pass.lift_ok]
    exact ⟨f, f, ⟨rfl, rfl⟩, (), f, ⟨ha, rfl⟩, text, f, ⟨htext, rfl⟩, fs, f,
      ⟨congrArg (access t) hwrite, rfl⟩, rfl⟩
  refine ⟨_, congrArg settle hcall, fun hsized => ?_⟩
  refine h.rewritten (FileSystem.keeps_put hplace hfile) ?_ (fun u hu => ?_) (fun u => ?_) ?_
  · rw [FileSystem.get?_put _ _ _ _ hplace, if_pos rfl, hrender, render_append]
  · rw [FileSystem.get?_put _ _ _ _ hplace, if_neg (file_ne_file l hu)]
  · rw [FileSystem.get?_put _ _ _ _ hplace, if_neg (file_ne_draft l t u).symm]
    exact h.drafts u
  · intro row hrow
    rcases List.mem_append.1 hrow with hrow | hrow
    · exact h.sorted t row hrow
    · exact ⟨hsized row hrow, (accepts_ok.1 ha).2 row hrow⟩

/-- What a table holds is written next to its file and moved there. -/
lemma replace_file (h : Mirrors p l f m) (t : Table) (text : String) :
    ∃ fs, (do
        let fs ← f.system.write (f.place (draftName t)) text
        fs.move (f.place (draftName t)) (f.place (fileName t))) = .ok fs ∧
      FileSystem.Keeps f.system fs ∧
      ∀ k, fs.get? k =
        if k = l ++ [fileName t] then some (.file text)
        else if k = l ++ [draftName t] then none else f.system.get? k := by
  have hdraft : l ++ [draftName t] ≠ [] := by simp
  have hplace : l ++ [fileName t] ≠ [] := by simp
  have happart : l ++ [fileName t] ≠ l ++ [draftName t] := file_ne_draft l t t
  let written := f.system.put (l ++ [draftName t]) (.file text)
  have hkeeps : FileSystem.Keeps f.system written := FileSystem.keeps_put hdraft (h.drafts t)
  have hget (k : Location) :
      written.get? k = if k = l ++ [draftName t] then some (.file text) else f.system.get? k :=
    FileSystem.get?_put _ _ _ _ hdraft
  have hfile : written.get? (l ++ [draftName t]) = some (.file text) := by
    rw [hget, if_pos rfl]
  have hkeepsRemoved : FileSystem.Keeps written (written.remove (l ++ [draftName t])) :=
    FileSystem.keeps_remove hdraft (by simp [hfile])
  have htarget : (written.remove (l ++ [draftName t])).get? (l ++ [fileName t]) ≠ some .folder := by
    rw [FileSystem.get?_remove _ hdraft, if_neg happart, hget, if_neg happart]
    exact h.file_ne_folder t
  -- The draft is gone after the move: all that differs is the file itself.
  refine ⟨(written.remove (l ++ [draftName t])).put (l ++ [fileName t]) (.file text), ?_,
    (hkeeps.trans hkeepsRemoved).trans (FileSystem.keeps_put hplace htarget), fun k => ?_⟩
  · refine Calc.bind_ok.2 ⟨written, FileSystem.write_eq (h.locate_draft t) (h.drafts t), ?_⟩
    exact FileSystem.move_eq (hkeeps.locate (h.locate_draft t))
      (hkeeps.locate (h.locate_file t)) hfile htarget
  · rw [FileSystem.get?_put _ _ _ _ hplace, FileSystem.get?_remove _ hdraft, hget]
    split
    · rfl
    · split <;> rfl

/-- The file is written anew. If no row is to be removed it stays as it is, and the rows that are
kept are all rows. -/
lemma answer_deleteSlot (h : Mirrors p l f m) {slot : Slot}
    (ha : accepts f.closed t [] = .ok ()) :
    ∃ f', store.answer f (.deleteSlot t slot) = (.done, f') ∧
      Mirrors p l f'
        { m with tables := m.tables.set t ((m.rows t).filter (·.slot != slot)) } := by
  by_cases hany : (m.rows t).any (·.slot == slot) = true
  · obtain ⟨fs, hreplace, hkeeps, hget⟩ :=
      h.replace_file t (render ((m.rows t).filter (·.slot != slot)))
    have hcall : deleteSlot t slot f = .ok () { f with system := fs } := by
      simp only [deleteSlot, Pass.bind_ok, Pass.get_ok, Pass.lift_ok]
      refine ⟨f, f, ⟨rfl, rfl⟩, (), f, ⟨ha, rfl⟩, m.rows t, f, ⟨h.rows_eq t, rfl⟩, ?_⟩
      rw [if_pos hany]
      simp only [Pass.bind_ok, Pass.lift_ok]
      exact ⟨fs, f, ⟨congrArg (access t) hreplace, rfl⟩, rfl⟩
    refine ⟨_, congrArg settle hcall, h.rewritten hkeeps ?_ (fun u hu => ?_) (fun u => ?_) ?_⟩
    · rw [hget, if_pos rfl]
    · rw [hget, if_neg (file_ne_file l hu), if_neg (file_ne_draft l u t)]
    · rw [hget, if_neg (file_ne_draft l t u).symm]
      split
      · simp
      · exact h.drafts u
    · intro row hrow
      exact h.sorted t row (List.mem_of_mem_filter hrow)
  · have hcall : deleteSlot t slot f = .ok () f := by
      simp only [deleteSlot, Pass.bind_ok, Pass.get_ok, Pass.lift_ok]
      refine ⟨f, f, ⟨rfl, rfl⟩, (), f, ⟨ha, rfl⟩, m.rows t, f, ⟨h.rows_eq t, rfl⟩, ?_⟩
      rw [if_neg hany]
      rfl
    have hkept : (m.rows t).filter (·.slot != slot) = m.rows t := by
      rw [List.filter_eq_self]
      intro row hrow
      simp only [List.any_eq_true, not_exists, not_and] at hany
      simpa using hany row hrow
    refine ⟨f, congrArg settle hcall, ?_⟩
    rw [hkept, MemoryStore.set_rows]
    exact h

end Mirrors

lemma close_run (f : FileStore) :
    close f = if f.closed then .error .closed f else .ok () { f with closed := true } :=
  closing_run FileStore.closed (fun f => { f with closed := true }) f

lemma guarded_store : store.Guarded where
  persist _ _ _ _ h := lift_error h
  deleteSlot _ _ _ _ h := lift_error h
  close f h := (close_run f).trans (if_pos h)

namespace Mirrors

lemma reclosed (h : Mirrors p l f m) (closed : Bool) :
    Mirrors p l { f with closed } { m with closed } where
  directory := h.directory
  located := h.located
  folder := h.folder
  roomy := h.roomy
  closed := rfl
  holds := h.holds
  drafts := h.drafts
  sorted := h.sorted

/-- Both stores carry out a request that may be carried out. -/
lemma answer_accepted (h : Mirrors p l f m) {q : Request} (ha : q.accepted f.closed = .ok ()) :
    ∃ a f' m', store.answer f q = (a, f') ∧ MemoryStore.store.answer m q = (a, m') ∧
      (∀ e, a ≠ .failed e) ∧ (q.Sized → Mirrors p l f' m') := by
  have hm : q.accepted m.closed = .ok () := h.closed ▸ ha
  cases q with
  | persist t added =>
    obtain ⟨f', hf, hmirrors⟩ := h.answer_persist ha
    exact ⟨_, _, _, hf, MemoryStore.answer_persist hm, nofun, hmirrors⟩
  | deleteSlot t slot =>
    obtain ⟨f', hf, hmirrors⟩ := h.answer_deleteSlot ha
    exact ⟨_, _, _, hf, MemoryStore.answer_deleteSlot hm, nofun, fun _ => hmirrors⟩
  | close =>
    have hopen : f.closed = false := by
      cases hc : f.closed with
      | true =>
        rw [hc] at ha
        cases ha
      | false => rfl
    have hfile : close f = .ok () { f with closed := true } := by simp [close_run, hopen]
    have hmemory : MemoryStore.close m = .ok () { m with closed := true } := by
      simp [MemoryStore.close_run, ← h.closed, hopen]
    exact ⟨_, _, _, congrArg settle hfile, congrArg settle hmemory, nofun, fun _ => h.reclosed true⟩
  | rows t =>
    have hf : store.answer f (.rows t) = (.shown (m.rows t), f) := by
      show (match f.rows t with
        | .ok rows => (Answer.shown rows, f)
        | .error e => (.failed e, f)) = _
      rw [h.rows_eq t]
    exact ⟨_, _, _, hf, rfl, nofun, fun _ => h⟩

/-- A request has the same answer from both stores, which have the same contents after it. -/
lemma answer (h : Mirrors p l f m) {q : Request} (hq : q.Sized) :
    (store.answer f q).1 = (MemoryStore.store.answer m q).1 ∧
      (∀ e, (store.answer f q).1 = .failed e → e.IsRefusal) ∧
      Mirrors p l (store.answer f q).2 (MemoryStore.store.answer m q).2 := by
  cases ha : q.accepted f.closed with
  | ok u =>
    obtain ⟨a, f', m', hf, hm, hdone, hmirrors⟩ := h.answer_accepted ha
    rw [hf, hm]
    exact ⟨rfl, fun e he => absurd he (hdone e), hmirrors hq⟩
  | error e =>
    rw [guarded_store.answer ha, MemoryStore.guarded_store.answer (h.closed ▸ ha)]
    refine ⟨rfl, ?_, h⟩
    rintro e ⟨⟩
    exact isRefusal_accepted ha

lemma answers (h : Mirrors p l f m) {qs : List Request} (hq : ∀ q ∈ qs, q.Sized) :
    (store.answers f qs).1 = (MemoryStore.store.answers m qs).1 ∧
      (∀ e, .failed e ∈ (store.answers f qs).1 → e.IsRefusal) ∧
      Mirrors p l (store.answers f qs).2 (MemoryStore.store.answers m qs).2 := by
  induction qs generalizing f m with
  | nil => exact ⟨rfl, nofun, h⟩
  | cons q qs ih =>
    obtain ⟨hanswer, hrefusal, hmirrors⟩ := h.answer (hq q List.mem_cons_self)
    obtain ⟨hrest, hrefusals, hend⟩ := ih hmirrors fun x hx => hq x (List.mem_cons_of_mem _ hx)
    refine ⟨?_, fun e he => ?_, hend⟩
    · simp only [Store.answers, hanswer, hrest]
    · rcases List.mem_cons.1 he with he | he
      · exact hrefusal e he.symm
      · exact hrefusals e he

/-- A request that fails is one that both stores turn down. -/
lemma answer_failed (h : Mirrors p l f m) {q : Request} {e : StoreError}
    (hfailed : (store.answer f q).1 = .failed e ∨ (MemoryStore.store.answer m q).1 = .failed e) :
    e.IsRefusal ∧ store.answer f q = (.failed e, f) ∧
      MemoryStore.store.answer m q = (.failed e, m) := by
  cases ha : q.accepted f.closed with
  | ok u =>
    obtain ⟨a, f', m', hf, hm, hdone, -⟩ := h.answer_accepted ha
    rw [hf, hm] at hfailed
    rcases hfailed with hfailed | hfailed
    · exact absurd hfailed (hdone e)
    · exact absurd hfailed (hdone e)
  | error e' =>
    have hf := guarded_store.answer ha
    have hm := MemoryStore.guarded_store.answer (show q.accepted m.closed = _ from h.closed ▸ ha)
    have hsame : e' = e := by
      rw [hf, hm] at hfailed
      rcases hfailed with hfailed | hfailed
      · exact Answer.failed.inj hfailed
      · exact Answer.failed.inj hfailed
    subst hsame
    exact ⟨isRefusal_accepted ha, hf, hm⟩

/-! ### Opening -/

/-- Opening the folder anew shows the same rows. -/
lemma reopened (h : Mirrors p l f m) :
    persistent f.system p = .ok f.reopen ∧ ∀ t, f.reopen.rows t = .ok (m.rows t) := by
  have hfolder : f.system.isFolder p = true := FileSystem.isFolder_iff.2 ⟨l, h.located, h.folder⟩
  refine ⟨?_, (h.reclosed false).rows_eq⟩
  rw [persistent, FileSystem.makeFolders_eq hfolder]
  show openAt f.system p = .ok { f with closed := false }
  rw [openAt, if_pos hfolder, h.directory]

end Mirrors

lemma mirrors_persistent {fs : FileSystem} {s : FileStore} (h : persistent fs p = .ok s)
    (hvacant : s.Vacant) (hroomy : s.Roomy) : ∃ l, Mirrors p l s .empty := by
  obtain ⟨fs', -, hopen⟩ := Calc.bind_ok.1 h
  unfold openAt at hopen
  split at hopen
  · next hfolder =>
    cases hopen
    obtain ⟨l, hl, hnone⟩ := hvacant
    obtain ⟨l', hl', hthere⟩ := FileSystem.isFolder_iff.1 hfolder
    have hsame : l = l' := Except.ok.inj (hl.symm.trans hl')
    have hempty (t : Table) : MemoryStore.empty.rows t = [] := PerTable.get_fill [] t
    refine ⟨l, rfl, hl, hsame ▸ hthere, hroomy, rfl, fun t => .inr ⟨hnone _, hempty t⟩, fun t => ?_,
      fun t row hrow => ?_⟩
    · simp [hnone]
    · rw [hempty] at hrow
      cases hrow
  · cases hopen

/-- A store in files over the folder at `p` that no call tells from a store in memory. -/
structure Agrees (p : Path) (f : FileStore) (m : MemoryStore) : Prop where
  closed : f.closed = m.closed
  rows : ∀ t, f.rows t = .ok (m.rows t)
  /-- A failure of one store is one of both, says that the request is turned down and leaves
  everything as it was. -/
  failed : ∀ q e,
    (store.answer f q).1 = .failed e ∨ (MemoryStore.store.answer m q).1 = .failed e →
      e.IsRefusal ∧ store.answer f q = (.failed e, f) ∧
        MemoryStore.store.answer m q = (.failed e, m)
  /-- The folder can be opened anew, and the store that is opened shows the same rows. -/
  reopened : ∃ g, persistent f.system p = .ok g ∧ g.closed = false ∧
    ∀ t, g.rows t = .ok (m.rows t)

/-- **A store in the files of an empty folder behaves as one in memory.** Whatever is asked of the
two, they give the same answers, none of which blames the files, and have the same rows in every
table. So has the store that is opened in the folder at any point. -/
theorem answers_as_in_memory {fs : FileSystem} {s : FileStore} {qs : List Request}
    (h : persistent fs p = .ok s) (hvacant : s.Vacant) (hroomy : s.Roomy)
    (hq : ∀ q ∈ qs, q.Sized) :
    (store.answers s qs).1 = (MemoryStore.store.answers .empty qs).1 ∧
      (∀ e, .failed e ∈ (store.answers s qs).1 → e.IsRefusal) ∧
      Agrees p (store.answers s qs).2 (MemoryStore.store.answers .empty qs).2 := by
  obtain ⟨l, hmirrors⟩ := mirrors_persistent h hvacant hroomy
  obtain ⟨hanswers, hrefusals, hend⟩ := hmirrors.answers hq
  obtain ⟨hagain, hrows⟩ := hend.reopened
  exact ⟨hanswers, hrefusals, hend.closed, hend.rows_eq, fun _ _ => hend.answer_failed,
    _, hagain, rfl, hrows⟩

/-- A validator of a pool whose name has a quote, a line break and a letter outside of ASCII. -/
def pooledRow : Row :=
  .validator
    { validator := 7, epoch := 3, slot := 100, balance := 32000000000, reward := -1500
      maxReward := 20000, attestationReward := 18000, syncReward := 0, proposerReward := 2000
      slashingReward := 0, baseReward := 4000, missingSource := false, missingTarget := false
      missingHead := true, status := .active, reportedProposerReward := none
      computedProposerReward := 2000, inSyncCommittee := false, inclusionDelay := 1
      pool := some "\"Ä\"\npool" }

def dutyRow (slot : Slot) : Row := .duty ⟨7, slot, true⟩

/-- Requests of every kind, a row for another table and a call after the closing. -/
def variousRequests : List Request :=
  [.persist .validatorRewards [pooledRow], .persist .proposerDuties [dutyRow 99, dutyRow 100],
    .persist .blocks [dutyRow 99], .deleteSlot .proposerDuties 99, .rows .proposerDuties, .close,
    .persist .blocks [], .rows .validatorRewards]

/-- The store in a folder that is made for it. -/
def madeStore : FileStore := ⟨FileSystem.empty.put ["tables"] .folder, ⟨false, ["tables"]⟩, false⟩

theorem various_answers_as_in_memory :
    persistent .empty ⟨false, ["tables"]⟩ = .ok madeStore ∧ madeStore.Vacant ∧ madeStore.Roomy ∧
      (∀ q ∈ variousRequests, q.Sized) ∧
        (store.answers madeStore variousRequests).1
          = [.done, .done, .failed (.tableMismatch .blocks .proposerDuties), .done,
            .shown [dutyRow 100], .done, .failed .closed, .shown [pooledRow]] ∧
          Agrees ⟨false, ["tables"]⟩ (store.answers madeStore variousRequests).2
            (MemoryStore.store.answers .empty variousRequests).2 := by
  have hopen : persistent .empty ⟨false, ["tables"]⟩ = .ok madeStore := by
    rw [persistent, FileSystem.makeFolders]
    rfl
  have hvacant : madeStore.Vacant := by
    refine ⟨["tables"], rfl, fun name => ?_⟩
    simp [madeStore, FileSystem.empty, FileSystem.put, FileSystem.remove, FileSystem.get?]
  have hroomy : madeStore.Roomy := by
    intro t
    cases t <;> decide
  have hsized : ∀ q ∈ variousRequests, q.Sized := by decide
  obtain ⟨hanswers, -, hagrees⟩ := answers_as_in_memory hopen hvacant hroomy hsized
  exact ⟨hopen, hvacant, hroomy, hsized, hanswers.trans rfl, hagrees⟩

end FileStore

end EpochRewards
