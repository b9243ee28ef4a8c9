import EpochRewards.Proofs.Buffering
import EpochRewards.Proofs.Pass

/-!
Writing to any store.

A store that accepts every call stays open under a writer. If it also shows what it was given
then, in the end, it shows what the messages say, as a store in memory does.
-/

namespace EpochRewards

variable {σ : Type}

namespace Store

/-- While it is open a store carries out every call: rows for the table that they belong to,
deletions and the closing. -/
structure Accepting (st : Store σ) : Prop where
  persist : ∀ s t rows, st.isClosed s = false → (∀ r ∈ rows, r.table = t) →
    ∃ s', (st.persist t rows).run s = .ok () s' ∧ st.isClosed s' = false
  deleteSlot : ∀ s t slot, st.isClosed s = false →
    ∃ s', (st.deleteSlot t slot).run s = .ok () s' ∧ st.isClosed s' = false
  close : ∀ s, st.isClosed s = false → ∃ s', st.close.run s = .ok () s'

/-- A store shows the rows that it was given and were not deleted, in their order. -/
structure Keeping (st : Store σ) : Prop where
  persist : ∀ s s' t rows u old, (st.persist t rows).run s = .ok () s' → st.rows s u = .ok old →
    st.rows s' u = .ok (if u = t then old ++ rows else old)
  deleteSlot : ∀ s s' t slot u old, (st.deleteSlot t slot).run s = .ok () s' →
    st.rows s u = .ok old → st.rows s' u = .ok (if u = t then old.filter (·.slot != slot) else old)
  close : ∀ s s' u, st.close.run s = .ok () s' → st.rows s' u = st.rows s u

end Store

/-- A call is a success if and only if the store carries it out. -/
lemma Writer.call_eq_true {op : StoreOp σ Unit} {s s' : σ} :
    call op s = (s', true) ↔ op.run s = .ok () s' := by
  unfold call
  constructor
  · intro h
    split at h
    · next u s'' hp =>
      cases h
      exact hp
    · cases h
  · intro h
    rw [h]

namespace MemoryStore

lemma accepting_store : store.Accepting where
  persist s t rows hs hr := ⟨_, Writer.call_eq_true.1 (call_persist hs hr), hs⟩
  deleteSlot s t slot hs := ⟨_, Writer.call_eq_true.1 (call_deleteSlot hs t slot), hs⟩
  close s hs := by
    refine ⟨{ s with closed := true }, ?_⟩
    have hopen : s.closed = false := hs
    show (if s.closed then throw .closed else set { s with closed := true } :
      StoreOp MemoryStore Unit) s = _
    rw [hopen]
    rfl

lemma rows_empty (t : Table) : store.rows empty t = .ok [] :=
  congrArg Except.ok (PerTable.get_fill [] t)

/-- What a store in memory shows after a call rewrote the rows of one table. -/
lemma rows_set {s : MemoryStore} {t u : Table} {old : List Row} (f : List Row → List Row)
    (ho : store.rows s u = .ok old) :
    store.rows { s with tables := s.tables.set t (f (s.rows t)) } u
      = .ok (if u = t then f old else old) := by
  have hold : s.rows u = old := Except.ok.inj ho
  show Except.ok ((s.tables.set t (f (s.rows t))).get u) = _
  rw [PerTable.get_set, ← hold]
  by_cases hu : u = t
  · rw [if_pos hu, if_pos hu, hu]
  · rw [if_neg hu, if_neg hu]
    rfl

lemma keeping_store : store.Keeping where
  persist s s' t rows u old hp ho := by
    have hcall : MemoryStore.persist t rows s = .ok () s' := hp
    simp only [MemoryStore.persist, Pass.bind_ok, Pass.get_ok, Pass.lift_ok, setRows,
      Pass.modify_ok] at hcall
    obtain ⟨_, _, ⟨rfl, rfl⟩, _, _, ⟨-, rfl⟩, rfl⟩ := hcall
    exact rows_set (· ++ rows) ho
  deleteSlot s s' t slot u old hd ho := by
    have hcall : MemoryStore.deleteSlot t slot s = .ok () s' := hd
    simp only [MemoryStore.deleteSlot, Pass.bind_ok, Pass.get_ok, Pass.lift_ok, setRows,
      Pass.modify_ok] at hcall
    obtain ⟨_, _, ⟨rfl, rfl⟩, _, _, ⟨-, rfl⟩, rfl⟩ := hcall
    exact rows_set (List.filter (·.slot != slot)) ho
  close s s' u hc := by
    have hclose : MemoryStore.close s = .ok () s' := hc
    simp only [MemoryStore.close, Pass.bind_ok, Pass.get_ok] at hclose
    obtain ⟨_, _, ⟨rfl, rfl⟩, hclose⟩ := hclose
    split at hclose
    · cases hclose
    · cases hclose
      rfl

end MemoryStore

namespace Writer

/-- A writer over an open store, with rows collected for their own tables. -/
structure Open (st : Store σ) (w : Writer σ) : Prop where
  isOpen : st.isClosed w.contents = false
  sorted : ∀ t, ∀ r ∈ w.buffers.get t, r.table = t

variable {st : Store σ} {w : Writer σ} {s s' : σ} {t : Table}

lemma open_start (hs : st.isClosed s = false) : Open st (start s) where
  isOpen := hs
  sorted t r hr := by simp [start] at hr

/-- Handing rows over empties the buffer of the table, by a call that is carried out. -/
lemma flush_ok (ha : st.Accepting) (h : Open st w) (t : Table) :
    w.buffers.get t = [] ∧ w.flush st t = w ∨
      (st.persist t (w.buffers.get t)).run w.contents = .ok () (w.flush st t).contents ∧
        st.isClosed (w.flush st t).contents = false ∧
          (w.flush st t).buffers = w.buffers.set t [] := by
  cases hb : w.buffers.get t with
  | nil =>
    refine .inl ⟨rfl, ?_⟩
    unfold flush
    rw [hb]
  | cons r rest =>
    obtain ⟨s', hp, hs'⟩ := ha.persist w.contents t (r :: rest) h.isOpen (hb ▸ h.sorted t)
    have hflush : (w.flush st t).contents = s' ∧ (w.flush st t).buffers = w.buffers.set t [] := by
      unfold flush
      simp only [hb, call_eq_true.2 hp, if_true]
      exact ⟨trivial, trivial⟩
    rw [hflush.1, hflush.2]
    exact .inr ⟨hp, hs', rfl⟩

lemma open_flush (ha : st.Accepting) (h : Open st w) (t : Table) : Open st (w.flush st t) := by
  rcases flush_ok ha h t with ⟨-, hw⟩ | ⟨-, hs, hb⟩
  · rw [hw]
    exact h
  · refine ⟨hs, fun u r hr => ?_⟩
    rw [hb, PerTable.get_set] at hr
    split at hr
    · cases hr
    · exact h.sorted u r hr

lemma add_eq (st : Store σ) (batchSize : Nat) (w : Writer σ) (r : Row) :
    w.add st batchSize r = w.collect r ∨ w.add st batchSize r = (w.collect r).flush st r.table := by
  show (if batchSize ≤ (w.buffers.get r.table ++ [r]).length then (w.collect r).flush st r.table
    else w.collect r) = _ ∨ (if batchSize ≤ (w.buffers.get r.table ++ [r]).length
    then (w.collect r).flush st r.table else w.collect r) = _
  split
  · exact .inr rfl
  · exact .inl rfl

lemma open_collect (h : Open st w) (r : Row) : Open st (w.collect r) := by
  refine ⟨h.isOpen, fun t x hx => ?_⟩
  rw [collect, PerTable.get_set] at hx
  split at hx
  · next ht =>
    rcases List.mem_append.1 hx with hx | hx
    · rw [ht]
      exact h.sorted _ x hx
    · rw [List.mem_singleton.1 hx, ht]
  · exact h.sorted t x hx

/-- A deletion is carried out after the rows before it are handed over. -/
lemma deleteSlot_ok (ha : st.Accepting) (h : Open st w) (t : Table) (slot : Slot) :
    (st.deleteSlot t slot).run (w.flush st t).contents
        = .ok () (w.deleteSlot st t slot).contents ∧
      st.isClosed (w.deleteSlot st t slot).contents = false ∧
        (w.deleteSlot st t slot).buffers = (w.flush st t).buffers := by
  have hflush := open_flush ha h t
  obtain ⟨s', hd, hs'⟩ := ha.deleteSlot (w.flush st t).contents t slot hflush.isOpen
  have hdelete : (w.deleteSlot st t slot).contents = s' ∧
      (w.deleteSlot st t slot).buffers = (w.flush st t).buffers := by
    unfold deleteSlot
    simp only [call_eq_true.2 hd]
    exact ⟨trivial, trivial⟩
  rw [hdelete.1]
  exact ⟨hd, hs', hdelete.2⟩

/-- No message closes a store that accepts it. -/
lemma open_handle (ha : st.Accepting) (batchSize : Nat) (h : Open st w) (m : Message) :
    Open st (w.handle st batchSize m) := by
  cases m with
  | row r =>
    show Open st (w.add st batchSize r)
    rcases add_eq st batchSize w r with hw | hw
    · rw [hw]
      exact open_collect h r
    · rw [hw]
      exact open_flush ha (open_collect h r) r.table
  | delete t slot =>
    -- The buffers are those after the flush that comes before every deletion.
    obtain ⟨-, hs, hb⟩ := deleteSlot_ok ha h t slot
    refine ⟨hs, ?_⟩
    show ∀ u, ∀ r ∈ (w.deleteSlot st t slot).buffers.get u, r.table = u
    rw [hb]
    exact (open_flush ha h t).sorted

lemma open_handle_all (ha : st.Accepting) (batchSize : Nat) (h : Open st w) (ms : List Message) :
    Open st (ms.foldl (handle st batchSize) w) := by
  induction ms generalizing w with
  | nil => exact h
  | cons m ms ih => exact ih (open_handle ha batchSize h m)

lemma open_flush_all (ha : st.Accepting) (h : Open st w) (ts : List Table) :
    Open st (ts.foldl (flush st) w) := by
  induction ts generalizing w with
  | nil => exact h
  | cons t ts ih => exact ih (open_flush ha h t)

lemma open_finish (ha : st.Accepting) (h : Open st w) : Open st (w.finish st) :=
  open_flush_all ha h Table.all

/-! ### What a store shows -/

/-- What the store and the buffers hold of each table. -/
structure Shows (st : Store σ) (shown : Table → List Row) (w : Writer σ) : Prop extends
    Open st w where
  rows : ∀ t, ∃ stored, st.rows w.contents t = .ok stored ∧ stored ++ w.buffers.get t = shown t

variable {shown : Table → List Row}

lemma shows_start (hs : st.isClosed s = false) (h : ∀ t, st.rows s t = .ok (shown t)) :
    Shows st shown (start s) where
  toOpen := open_start hs
  rows t := ⟨shown t, h t, by simp [start]⟩

lemma shows_flush (ha : st.Accepting) (hk : st.Keeping) (h : Shows st shown w) (t : Table) :
    Shows st shown (w.flush st t) ∧ (w.flush st t).buffers.get t = [] := by
  have hopen := open_flush ha h.toOpen t
  rcases flush_ok ha h.toOpen t with ⟨hb, hw⟩ | ⟨hp, -, hb⟩
  · rw [hw]
    exact ⟨h, hb⟩
  · refine ⟨⟨hopen, fun u => ?_⟩, by rw [hb, PerTable.get_set, if_pos rfl]⟩
    obtain ⟨stored, hs, hshown⟩ := h.rows u
    refine ⟨_, hk.persist _ _ t _ u stored hp hs, ?_⟩
    rw [hb, PerTable.get_set, ← hshown]
    by_cases hu : u = t
    · rw [if_pos hu, if_pos hu, hu, List.append_nil]
    · rw [if_neg hu, if_neg hu]

lemma shows_collect (h : Shows st shown w) (r : Row) :
    Shows st (fun t => Message.effect t (shown t) (.row r)) (w.collect r) := by
  refine ⟨open_collect h.toOpen r, fun t => ?_⟩
  obtain ⟨stored, hs, hshown⟩ := h.rows t
  refine ⟨stored, hs, ?_⟩
  rw [collect, PerTable.get_set, Message.effect, ← hshown]
  by_cases ht : t = r.table
  · rw [if_pos ht, if_pos ht.symm, ht, List.append_assoc]
  · rw [if_neg ht, if_neg (Ne.symm ht)]

lemma shows_deleteSlot (ha : st.Accepting) (hk : st.Keeping) (h : Shows st shown w) (t : Table)
    (slot : Slot) :
    Shows st (fun u => Message.effect u (shown u) (.delete t slot)) (w.deleteSlot st t slot) := by
  obtain ⟨hflush, hempty⟩ := shows_flush ha hk h t
  obtain ⟨hd, hs', hb⟩ := deleteSlot_ok ha h.toOpen t slot
  refine ⟨⟨hs', hb ▸ hflush.sorted⟩, fun u => ?_⟩
  obtain ⟨stored, hs, hshown⟩ := hflush.rows u
  refine ⟨_, hk.deleteSlot _ _ t slot u stored hd hs, ?_⟩
  rw [hb, Message.effect, ← hshown]
  by_cases hu : u = t
  · subst hu
    rw [if_pos rfl, if_pos rfl, hempty, List.append_nil, List.append_nil]
  · rw [if_neg hu, if_neg (Ne.symm hu)]

/-- One message changes what is shown by its effect. -/
lemma shows_handle (ha : st.Accepting) (hk : st.Keeping) (batchSize : Nat)
    (h : Shows st shown w) (m : Message) :
    Shows st (fun t => m.effect t (shown t)) (w.handle st batchSize m) := by
  cases m with
  | row r =>
    show Shows st _ (w.add st batchSize r)
    have hg := shows_collect h r
    rcases add_eq st batchSize w r with hw | hw
    · rw [hw]
      exact hg
    · rw [hw]
      exact (shows_flush ha hk hg r.table).1
  | delete t slot => exact shows_deleteSlot ha hk h t slot

lemma shows_handle_all (ha : st.Accepting) (hk : st.Keeping) (batchSize : Nat)
    (h : Shows st shown w) (ms : List Message) :
    Shows st (fun t => ms.foldl (Message.effect t) (shown t))
      (ms.foldl (handle st batchSize) w) := by
  induction ms generalizing w shown with
  | nil => exact h
  | cons m ms ih => exact ih (shows_handle ha hk batchSize h m)

/-- A buffer that is empty stays empty, and those that are flushed become empty. -/
lemma shows_flush_all (ha : st.Accepting) (hk : st.Keeping) (h : Shows st shown w)
    {ts : List Table} (ht : w.buffers.get t = [] ∨ t ∈ ts) :
    Shows st shown (ts.foldl (flush st) w) ∧ (ts.foldl (flush st) w).buffers.get t = [] := by
  induction ts generalizing w with
  | nil => exact ⟨h, ht.resolve_right List.not_mem_nil⟩
  | cons u ts ih =>
    obtain ⟨hu, hempty⟩ := shows_flush ha hk h u
    refine ih hu ?_
    by_cases htu : t = u
    · exact .inl (htu ▸ hempty)
    · rcases ht with ht | ht
      · left
        rcases flush_ok ha h.toOpen u with ⟨-, hw⟩ | ⟨-, -, hb⟩
        · rw [hw]
          exact ht
        · rw [hb, PerTable.get_set, if_neg htu]
          exact ht
      · exact .inr ((List.mem_cons.1 ht).resolve_left htu)

/-- After the last flush the store itself shows what was shown. -/
lemma rows_finish (ha : st.Accepting) (hk : st.Keeping) (h : Shows st shown w) (t : Table) :
    st.rows (w.finish st).contents t = .ok (shown t) := by
  have hall : t ∈ Table.all := by cases t <;> simp [Table.all]
  obtain ⟨hfinal, hempty⟩ := shows_flush_all ha hk h (.inr hall)
  obtain ⟨stored, hs, hshown⟩ := hfinal.rows t
  have hstored : stored = shown t := by
    rw [← hshown, hempty, List.append_nil]
  rw [← hstored]
  exact hs

/-- A store that accepts and keeps what it is given ends with the effect of all messages. -/
theorem rows_run (ha : st.Accepting) (hk : st.Keeping) (batchSize : Nat)
    (hs : st.isClosed s = false) (h : ∀ t, st.rows s t = .ok (shown t)) (ms : List Message)
    (t : Table) :
    st.rows (run st batchSize s ms).contents t = .ok (ms.foldl (Message.effect t) (shown t)) :=
  rows_finish ha hk (shows_handle_all ha hk batchSize (shows_start hs h) ms) t

end Writer

end EpochRewards
