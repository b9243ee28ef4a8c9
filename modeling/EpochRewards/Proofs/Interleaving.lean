import EpochRewards.Proofs.Yields

/-!
How the rows of the crew come between the messages of the dispatch.

What is dispatched is logged in its order. The attempts of a task are made at any time after the
task was queued and in any order, and each one that succeeds adds its row to the log.
-/

namespace EpochRewards

/-- A message of the dispatch or a row of the crew. -/
abbrev Entry := Message ⊕ Row

def Entry.message : Entry → Message
  | .inl m => m
  | .inr row => .row row

/-- The logs that what was queued leads to while some attempts are still to be made. -/
inductive Interleaved : List Dispatch → List Attempt → List Entry → Prop
  | nil : Interleaved [] [] []
  | message {queued : List Dispatch} {pending : List Attempt} {log : List Entry}
    (h : Interleaved queued pending log) (m : Message) :
    Interleaved (queued ++ [.message m]) pending (log ++ [.inl m])
  | task {queued : List Dispatch} {pending : List Attempt} {log : List Entry}
    (h : Interleaved queued pending log) (t : ValidatorTask) :
    Interleaved (queued ++ [.task t]) (pending ++ t.attempts) log
  | done {queued : List Dispatch} {pending : List Attempt} {log : List Entry}
    (h : Interleaved queued pending log) : Interleaved (queued ++ [.done]) pending log
  | attempt {queued : List Dispatch} {x : Attempt} {pending : List Attempt} {log : List Entry}
    (h : Interleaved queued (x :: pending) log) (hx : ¬ x.IsFault) :
    Interleaved queued pending (log ++ x.row?.toList.map .inr)
  | reorder {queued : List Dispatch} {pending pending' : List Attempt} {log : List Entry}
    (h : Interleaved queued pending log) (hp : pending.Perm pending') :
    Interleaved queued pending' log

namespace Interleaved

variable {queued : List Dispatch} {pending : List Attempt} {log : List Entry}

/-- The messages of the dispatch are logged in their order. -/
lemma messages (h : Interleaved queued pending log) :
    log.filterMap Sum.getLeft? = messagesOf queued := by
  induction h with
  | nil => rfl
  | message _ m ih =>
    rw [List.filterMap_append, ih, messagesOf_append]
    rfl
  | task _ t ih => rw [ih, messagesOf_append, messagesOf_task, List.append_nil]
  | done _ ih => rw [ih, messagesOf_append_done]
  | @attempt _ x _ _ _ _ ih =>
    have hnone : (x.row?.toList.map (Sum.inr : Row → Entry)).filterMap Sum.getLeft? = [] := by
      cases x.row? <;> rfl
    rw [List.filterMap_append, ih, hnone, List.append_nil]
  | reorder _ _ ih => exact ih

/-- Every attempt of what was queued is to be made or did not end in a fault, and its row is in
the log. -/
lemma attempts (h : Interleaved queued pending log) :
    ∃ made, (made ++ pending).Perm (attemptsOf queued) ∧ (∀ x ∈ made, ¬ x.IsFault) ∧
      log.filterMap Sum.getRight? = made.filterMap Attempt.row? := by
  induction h with
  | nil => exact ⟨[], .refl _, fun _ hx => absurd hx List.not_mem_nil, rfl⟩
  | message _ m ih =>
    obtain ⟨made, hp, hf, hr⟩ := ih
    refine ⟨made, ?_, hf, ?_⟩
    · rw [attemptsOf_append]
      exact hp.trans (List.Perm.of_eq (List.append_nil _).symm)
    · rw [List.filterMap_append, hr]
      exact List.append_nil _
  | task _ t ih =>
    obtain ⟨made, hp, hf, hr⟩ := ih
    have ht : attemptsOf [.task t] = t.attempts := List.flatMap_singleton _ _
    refine ⟨made, ?_, hf, hr⟩
    rw [attemptsOf_append, ht, ← List.append_assoc]
    exact hp.append_right _
  | done _ ih =>
    rw [attemptsOf_append_done]
    exact ih
  | @attempt _ x pending log _ hx ih =>
    obtain ⟨made, hp, hf, hr⟩ := ih
    refine ⟨made ++ [x], ?_, fun y hy => ?_, ?_⟩
    · rw [List.append_assoc]
      exact hp
    · rcases List.mem_append.1 hy with hy | hy
      · exact hf y hy
      · rw [List.mem_singleton.1 hy]
        exact hx
    · rw [List.filterMap_append, List.filterMap_append, hr]
      cases hrow : x.row? with
      | none => rw [List.filterMap_cons_none hrow]; rfl
      | some row => rw [List.filterMap_cons_some hrow]; rfl
  | reorder _ hperm ih =>
    obtain ⟨made, hp, hf, hr⟩ := ih
    exact ⟨made, (hperm.symm.append_left made).trans hp, hf, hr⟩

lemma pending_subset (h : Interleaved queued pending log) :
    ∀ x ∈ pending, x ∈ attemptsOf queued := by
  obtain ⟨made, hp, -, -⟩ := h.attempts
  exact fun x hx => hp.mem_iff.1 (List.mem_append_right _ hx)

/-- The rows in the log are those of tasks that were queued. -/
lemma rows_subset (h : Interleaved queued pending log) :
    ∀ row ∈ log.filterMap Sum.getRight?, row ∈ taskRows queued := by
  obtain ⟨made, hp, -, hr⟩ := h.attempts
  intro row hrow
  rw [hr] at hrow
  rw [← rows_attemptsOf]
  obtain ⟨x, hx, hxr⟩ := List.mem_filterMap.1 hrow
  exact List.mem_filterMap.2 ⟨x, hp.mem_iff.1 (List.mem_append_left _ hx), hxr⟩

/-- When all attempts have been made the log holds the rows of all tasks. -/
lemma rows (h : Interleaved queued [] log) :
    (log.filterMap Sum.getRight?).Perm (taskRows queued) := by
  obtain ⟨made, hp, -, hr⟩ := h.attempts
  rw [List.append_nil] at hp
  rw [hr, ← rows_attemptsOf]
  exact hp.filterMap _

lemma faultless (h : Interleaved queued [] log) : ∀ x ∈ attemptsOf queued, ¬ x.IsFault := by
  obtain ⟨made, hp, hf, -⟩ := h.attempts
  rw [List.append_nil] at hp
  exact fun x hx => hf x (hp.mem_iff.2 hx)

end Interleaved

end EpochRewards
