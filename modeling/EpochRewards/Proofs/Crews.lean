import EpochRewards.Crew
import Mathlib.Data.List.Basic
import Mathlib.Data.List.Perm.Basic
import Mathlib.Tactic.Common

/-!
What a crew sends.

Every validator of a task is attempted once. A record that can be resolved is sent as a row, one
that cannot be is skipped, and a fault takes the worker out. In whatever order the workers move,
a move either leaves the attempts to come as they are or makes one of them.
-/

namespace EpochRewards

/-- An attempt at a record. -/
abbrev Attempt := Calc ValidatorRecord

namespace Attempt

/-- The row that an attempt sends, if it succeeds. -/
def row? (x : Attempt) : Option Row := x.toOption.map .validator

/-- An attempt that takes its worker out. -/
def IsFault (x : Attempt) : Prop := ∃ f, x = .error (.fault f)

lemma not_isFault_ok (rec : ValidatorRecord) : ¬ IsFault (.ok rec) := by
  rintro ⟨_, h⟩
  cases h

lemma not_isFault_error (e : RewardError) : ¬ IsFault (.error (.error e)) := by
  rintro ⟨_, h⟩
  cases h

end Attempt

namespace ValidatorTask

def attempts (t : ValidatorTask) : List Attempt := t.validators.map t.resolve

/-- The rows of a task. -/
def rows (t : ValidatorTask) : List Row := t.attempts.filterMap Attempt.row?

lemma attempts_cons (t : ValidatorTask) (v : ValidatorIndex) (vs : List ValidatorIndex)
    (h : t.validators = v :: vs) :
    t.attempts = t.resolve v :: ({ t with validators := vs } : ValidatorTask).attempts := by
  rw [attempts, h]
  rfl

end ValidatorTask

namespace Crew

variable {c c' : Crew} {room : Bool} {row : Option Row} {m : Move} {i : Nat} {s : Stint}

/-! ### Moves -/

/-- What a move makes of a crew, and the row that it sends. -/
inductive Moved (c : Crew) : Crew → Option Row → Prop
  | taken {n : Nat} {t : ValidatorTask} {queue : List ValidatorTask} (idle : c.idle = n + 1)
      (queued : c.queue = t :: queue) :
      Moved c { c with queue, idle := n, busy := c.busy ++ [⟨t, 0, 0⟩] } none
  | finished {i : Nat} {s : Stint} (busy : c.busy[i]? = some s) (done : s.task.validators = []) :
      Moved c (c.finish i s) none
  | sent {i : Nat} {s : Stint} {v : ValidatorIndex} {vs : List ValidatorIndex}
      {record : ValidatorRecord} (busy : c.busy[i]? = some s) (next : s.task.validators = v :: vs)
      (resolved : s.task.resolve v = .ok record) :
      Moved c
        { c with busy :=
            c.busy.set i ⟨{ s.task with validators := vs }, s.records + 1, s.failedRecords⟩ }
        (some (.validator record))
  | skipped {i : Nat} {s : Stint} {v : ValidatorIndex} {vs : List ValidatorIndex}
      {e : RewardError} (busy : c.busy[i]? = some s) (next : s.task.validators = v :: vs)
      (resolved : s.task.resolve v = .error (.error e)) :
      Moved c
        { c with busy :=
            c.busy.set i ⟨{ s.task with validators := vs }, s.records, s.failedRecords + 1⟩ }
        none
  | crashed {i : Nat} {s : Stint} {v : ValidatorIndex} {vs : List ValidatorIndex} {f : Fault}
      (busy : c.busy[i]? = some s) (next : s.task.validators = v :: vs)
      (resolved : s.task.resolve v = .error (.fault f)) : Moved c (c.crash i f) none

lemma moved_of_advance (h : c.advance room m = some (c', row)) : Moved c c' row := by
  cases m with
  | take =>
    obtain ⟨d, hd, he⟩ := Option.map_eq_some_iff.1 h
    cases he
    unfold take at hd
    split at hd
    · next n t queue hidle hqueue =>
      cases hd
      exact .taken hidle hqueue
    · cases hd
  | work i =>
    obtain ⟨s, hs, hw⟩ := Option.bind_eq_some_iff.1 h
    unfold work at hw
    split at hw
    · next hdone =>
      cases hw
      exact .finished hs hdone
    · next v vs hnext =>
      dsimp only at hw
      split at hw
      · next record hr =>
        split at hw
        · cases hw
          exact .sent hs hnext hr
        · cases hw
      · next e hr =>
        cases hw
        exact .skipped hs hnext hr
      · next f hr =>
        cases hw
        exact .crashed hs hnext hr

/-- A move that is not listed cannot be made. -/
lemma advance_of_not_mem (h : m ∉ c.moves) : c.advance room m = none := by
  cases m with
  | take => simp [moves] at h
  | work i =>
    simp only [moves, List.mem_append, List.mem_map, List.mem_range, List.mem_singleton,
      reduceCtorEq, or_false, Move.work.injEq, exists_eq_right, Nat.not_lt] at h
    rw [advance, List.getElem?_eq_none h]
    rfl

lemma stuck_of_next (h : c.next? room = none) (m : Move) : c.advance room m = none := by
  rw [next?, List.findSome?_eq_none_iff] at h
  by_cases hm : m ∈ c.moves
  · exact h m hm
  · exact advance_of_not_mem hm

/-! ### Tasks left -/

/-- The tasks that are queued and what is left of those that workers are at. -/
def tasksLeft (c : Crew) : List ValidatorTask := c.queue ++ c.underway

/-- The tasks besides the one that a worker is at. -/
def otherTasks (c : Crew) (i : Nat) : List ValidatorTask :=
  c.queue ++ (c.busy.eraseIdx i).map (·.task)

/-- What is to come of the tasks that are left. -/
def attemptsLeft (c : Crew) : List Attempt := c.tasksLeft.flatMap (·.attempts)

/-- The number of workers that are not out. -/
def strength (c : Crew) : Nat := c.idle + c.busy.length

/-- A crew is not gone while some worker is not out. -/
lemma not_isGone (h : 0 < c.strength) : ¬ c.isGone := by
  intro hg
  rw [isGone, Bool.and_eq_true, beq_iff_eq, List.isEmpty_iff] at hg
  rw [strength, hg.1, hg.2] at h
  exact Nat.lt_irrefl 0 h

lemma busy_perm (h : c.busy[i]? = some s) : c.busy.Perm (s :: c.busy.eraseIdx i) := by
  obtain ⟨hi, rfl⟩ := List.getElem?_eq_some_iff.1 h
  exact (List.getElem_cons_eraseIdx_perm hi).symm

lemma set_busy_perm (u : Stint) (h : c.busy[i]? = some s) :
    (c.busy.set i u).Perm (u :: c.busy.eraseIdx i) :=
  List.set_perm_cons_eraseIdx (List.getElem?_eq_some_iff.1 h).1 u

/-- A worker's task besides all others. -/
lemma tasksLeft_perm (h : c.busy[i]? = some s) :
    c.tasksLeft.Perm (s.task :: c.otherTasks i) :=
  (((busy_perm h).map _).append_left c.queue).trans List.perm_middle

lemma tasksLeft_set (u : Stint) (h : c.busy[i]? = some s) :
    ({ c with busy := c.busy.set i u } : Crew).tasksLeft.Perm (u.task :: c.otherTasks i) :=
  (((set_busy_perm u h).map _).append_left c.queue).trans List.perm_middle

lemma tasksLeft_queue (c : Crew) (t : ValidatorTask) :
    ({ c with queue := c.queue ++ [t] } : Crew).tasksLeft.Perm (t :: c.tasksLeft) := by
  rw [tasksLeft, List.append_assoc]
  exact List.perm_middle

lemma tasksLeft_taken {n : Nat} {t : ValidatorTask} {queue : List ValidatorTask}
    (h : c.queue = t :: queue) :
    ({ c with queue, idle := n, busy := c.busy ++ [⟨t, 0, 0⟩] } : Crew).tasksLeft.Perm
      c.tasksLeft := by
  simp only [tasksLeft, underway, List.map_append, List.map_cons, List.map_nil, h,
    ← List.append_assoc]
  exact List.perm_append_comm

/-! ### Attempts -/

/-- A move that makes no attempt sends nothing, one that makes an attempt sends what comes of
it. -/
inductive Makes (c c' : Crew) : Option Row → Prop
  | nothing (h : c'.attemptsLeft.Perm c.attemptsLeft) : Makes c c' none
  | attempt {x : Attempt} (h : (x :: c'.attemptsLeft).Perm c.attemptsLeft) (hx : ¬ x.IsFault) :
    Makes c c' x.row?

/-- The first attempt of a worker's task besides all others. -/
lemma attemptsLeft_perm {v : ValidatorIndex} {vs : List ValidatorIndex}
    (hs : c.busy[i]? = some s) (hnext : s.task.validators = v :: vs) :
    c.attemptsLeft.Perm (s.task.resolve v ::
      ({ s.task with validators := vs } :: c.otherTasks i).flatMap (·.attempts)) := by
  have hp := (tasksLeft_perm hs).flatMap_right (·.attempts)
  rwa [List.flatMap_cons, s.task.attempts_cons v vs hnext] at hp

/-- A worker that goes on has one attempt less to make, whatever it counts. -/
lemma attemptsLeft_goOn {v : ValidatorIndex} {vs : List ValidatorIndex}
    (hs : c.busy[i]? = some s) (hnext : s.task.validators = v :: vs) (records failed : Nat) :
    (s.task.resolve v :: ({ c with
        busy := c.busy.set i ⟨{ s.task with validators := vs }, records, failed⟩ }
          : Crew).attemptsLeft).Perm c.attemptsLeft := by
  have hp := (tasksLeft_set ⟨{ s.task with validators := vs }, records, failed⟩ hs).flatMap_right
    (·.attempts)
  exact (hp.cons _).trans (attemptsLeft_perm hs hnext).symm

/-- Whatever the move, attempts are neither lost nor made up as long as no worker is out. -/
theorem advance_ok (h : c.advance room m = some (c', row)) :
    Makes c c' row ∧ c'.strength = c.strength ∧ c'.crashes = c.crashes ∨
      c'.hasCrashed ∧ ∃ x ∈ c.attemptsLeft, x.IsFault := by
  cases moved_of_advance h with
  | taken idle queued =>
    refine .inl ⟨.nothing ((tasksLeft_taken queued).flatMap_right _), ?_, rfl⟩
    simp only [strength, idle, List.length_append, List.length_singleton]
    omega
  | @finished i s busy done =>
    refine .inl ⟨.nothing ?_, ?_, rfl⟩
    · have hnone : s.task.attempts = [] := by
        rw [ValidatorTask.attempts, done]
        rfl
      have hp := (tasksLeft_perm busy).flatMap_right (·.attempts)
      rw [List.flatMap_cons, hnone] at hp
      exact hp.symm
    · have hi := (List.getElem?_eq_some_iff.1 busy).1
      simp only [strength, finish, List.length_eraseIdx_of_lt hi]
      omega
  | @sent i s v vs record busy next resolved =>
    have hmakes := Makes.attempt (attemptsLeft_goOn busy next (s.records + 1) s.failedRecords)
      (resolved ▸ Attempt.not_isFault_ok record)
    rw [resolved] at hmakes
    exact .inl ⟨hmakes, by simp only [strength, List.length_set], rfl⟩
  | @skipped i s v vs e busy next resolved =>
    have hmakes := Makes.attempt (attemptsLeft_goOn busy next s.records (s.failedRecords + 1))
      (resolved ▸ Attempt.not_isFault_error e)
    rw [resolved] at hmakes
    exact .inl ⟨hmakes, by simp only [strength, List.length_set], rfl⟩
  | @crashed i s v vs f busy next resolved =>
    refine .inr ⟨by simp [hasCrashed, crash], s.task.resolve v, ?_, f, resolved⟩
    exact (attemptsLeft_perm busy next).mem_iff.2 List.mem_cons_self

/-- A worker that is out stays out. -/
lemma crashed_advance (h : c.advance room m = some (c', row)) (hc : c.hasCrashed) :
    c'.hasCrashed := by
  rcases advance_ok h with ⟨-, -, he⟩ | ⟨hc', -⟩
  · rw [hasCrashed, he]
    exact hc
  · exact hc'

/-- A crew with room for its rows that cannot move has no task left. -/
theorem attemptsLeft_of_stuck (hs : 0 < c.strength) (h : ∀ m, c.advance true m = none) :
    c.queue = [] ∧ c.busy = [] ∧ c.attemptsLeft = [] := by
  have hb : c.busy = [] := by
    cases hb : c.busy with
    | nil => rfl
    | cons t busy =>
      have := h (.work 0)
      simp only [advance, hb, List.getElem?_cons_zero, Option.bind_some, work] at this
      split at this
      · cases this
      · split at this
        · cases this
        · cases this
        · cases this
  have hq : c.queue = [] := by
    have := h .take
    simp only [advance, Option.map_eq_none_iff, take] at this
    split at this
    · cases this
    · next hn =>
      cases hq : c.queue with
      | nil => rfl
      | cons t queue =>
        rw [strength, hb, List.length_nil, Nat.add_zero] at hs
        exact absurd hq (hn (c.idle - 1) t queue (by omega))
  exact ⟨hq, hb, by rw [attemptsLeft, tasksLeft, underway, hq, hb]; rfl⟩

end Crew

end EpochRewards
