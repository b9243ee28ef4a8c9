import EpochRewards.Capacity
import EpochRewards.Dispatch

/-!
The crew: workers that share a queue of validator tasks.

In a move a worker takes a task, resolves one validator of its task or finishes that. A
validator whose record cannot be resolved is counted and skipped; a fault takes the worker out. What
a worker has counted becomes known when it finishes its task.
-/

namespace EpochRewards

structure CrewStats where
  tasks : Nat
  records : Nat
  failedRecords : Nat
  deriving DecidableEq

def CrewStats.zero : CrewStats := ⟨0, 0, 0⟩

/-- A worker at a task. -/
structure Stint where
  /-- what is left of the task -/
  task : ValidatorTask
  /-- what became of the rest -/
  records : Nat
  failedRecords : Nat
  deriving DecidableEq

structure Crew where
  queue : List ValidatorTask
  /-- the number of workers without a task -/
  idle : Nat
  /-- the other workers -/
  busy : List Stint
  /-- the faults of the workers that are out -/
  crashes : List Fault
  stats : CrewStats
  deriving DecidableEq

/-- The record of a validator under the name of the task's pool. -/
def ValidatorTask.resolve (t : ValidatorTask) (v : ValidatorIndex) : Calc ValidatorRecord := do
  return { ← t.bundle.resolve v with pool := t.pool }

namespace Crew

def ofSize (n : Nat) (queue : List ValidatorTask) : Crew := ⟨queue, n, [], [], .zero⟩

/-- The bytes that it takes to keep hold of a worker. -/
def handleSize : Nat := 8

/-- A crew that is at no task yet, if the number of workers is within the limit. -/
def create (n : Nat) (queue : List ValidatorTask) : Except Fault Crew := do
  Capacity.space handleSize n
  return ofSize n queue

def hasCrashed (c : Crew) : Bool := !c.crashes.isEmpty

/-- No worker is left. -/
def isGone (c : Crew) : Bool := c.idle == 0 && c.busy.isEmpty

/-- What is left of the tasks that workers are at. -/
def underway (c : Crew) : List ValidatorTask := c.busy.map (·.task)

/-! ### Moves -/

inductive Move where
  | take
  /-- work on the busy worker's task of that number -/
  | work (i : Nat)
  deriving DecidableEq

def take (c : Crew) : Option Crew :=
  match c.idle, c.queue with
  | n + 1, t :: queue => some { c with queue, idle := n, busy := c.busy ++ [⟨t, 0, 0⟩] }
  | _, _ => none

def finish (c : Crew) (i : Nat) (s : Stint) : Crew :=
  { c with
    idle := c.idle + 1
    busy := c.busy.eraseIdx i
    stats := {
      tasks := c.stats.tasks + 1
      records := c.stats.records + s.records
      failedRecords := c.stats.failedRecords + s.failedRecords } }

def crash (c : Crew) (i : Nat) (f : Fault) : Crew :=
  { c with busy := c.busy.eraseIdx i, crashes := c.crashes ++ [f] }

/-- Goes on with a task and the row that this sends, for which there has to be room. -/
def work (room : Bool) (c : Crew) (i : Nat) (s : Stint) : Option (Crew × Option Row) :=
  match s.task.validators with
  | [] => some (c.finish i s, none)
  | v :: validators =>
    let rest := { s with task := { s.task with validators } }
    match s.task.resolve v with
    | .ok record =>
      let busy := c.busy.set i { rest with records := s.records + 1 }
      if room then some ({ c with busy }, some (.validator record)) else none
    | .error (.error _) =>
      let busy := c.busy.set i { rest with failedRecords := s.failedRecords + 1 }
      some ({ c with busy }, none)
    | .error (.fault f) => some (c.crash i f, none)

def advance (room : Bool) (c : Crew) : Move → Option (Crew × Option Row)
  | .take => c.take.map (·, none)
  | .work i => c.busy[i]?.bind (c.work room i)

/-! ### Work left -/

def load : List ValidatorTask → Nat
  | [] => 0
  | t :: ts => t.validators.length + 1 + load ts

/-- A bound on the moves that are left. -/
def remaining (c : Crew) : Nat := c.queue.length + load c.queue + load c.underway

theorem load_append (ts us : List ValidatorTask) : load (ts ++ us) = load ts + load us := by
  induction ts with
  | nil => simp only [List.nil_append, load, Nat.zero_add]
  | cons t ts ih => simp only [List.cons_append, load, ih]; omega

theorem load_set {ss : List Stint} {i : Nat} {s : Stint} (u : Stint) (h : ss[i]? = some s) :
    load ((ss.set i u).map (·.task)) + s.task.validators.length
      = load (ss.map (·.task)) + u.task.validators.length := by
  induction ss generalizing i with
  | nil => simp at h
  | cons x rest ih =>
    cases i with
    | zero =>
      simp only [List.getElem?_cons_zero, Option.some.injEq] at h
      subst h
      simp only [List.set_cons_zero, List.map_cons, load]
      omega
    | succ i =>
      have := ih (i := i) (by simpa using h)
      simp only [List.set_cons_succ, List.map_cons, load]
      omega

theorem load_eraseIdx {ss : List Stint} {i : Nat} {s : Stint} (h : ss[i]? = some s) :
    load ((ss.eraseIdx i).map (·.task)) + s.task.validators.length + 1
      = load (ss.map (·.task)) := by
  induction ss generalizing i with
  | nil => simp at h
  | cons x rest ih =>
    cases i with
    | zero =>
      simp only [List.getElem?_cons_zero, Option.some.injEq] at h
      subst h
      simp only [List.eraseIdx_cons_zero, List.map_cons, load]
      omega
    | succ i =>
      have := ih (i := i) (by simpa using h)
      simp only [List.eraseIdx_cons_succ, List.map_cons, load]
      omega

theorem remaining_take {c c' : Crew} (h : c.take = some c') : c'.remaining < c.remaining := by
  unfold take at h
  split at h
  · next n t queue hi hq =>
    cases h
    simp only [remaining, underway, hq, List.length_cons, List.map_append, List.map_cons,
      List.map_nil, load_append, load]
    omega
  · cases h

theorem remaining_work {room : Bool} {c c' : Crew} {i : Nat} {s : Stint}
    {row : Option Row} (hs : c.busy[i]? = some s) (h : c.work room i s = some (c', row)) :
    c'.remaining < c.remaining := by
  have erased := load_eraseIdx hs
  unfold work at h
  split at h
  · cases h
    simp only [finish, remaining, underway]
    omega
  · next v validators hv =>
    have rest (u : Stint) := load_set u hs
    simp only [hv, List.length_cons] at rest
    dsimp only at h
    split at h
    · split at h
      · cases h
        have := rest ⟨{ s.task with validators }, s.records + 1, s.failedRecords⟩
        simp only [remaining, underway] at this ⊢
        omega
      · cases h
    · cases h
      have := rest ⟨{ s.task with validators }, s.records, s.failedRecords + 1⟩
      simp only [remaining, underway] at this ⊢
      omega
    · cases h
      simp only [crash, remaining, underway]
      omega

theorem remaining_advance {room : Bool} {c c' : Crew} {m : Move} {row : Option Row}
    (h : c.advance room m = some (c', row)) : c'.remaining < c.remaining := by
  cases m with
  | take =>
    obtain ⟨d, hd, hc⟩ := Option.map_eq_some_iff.1 h
    cases hc
    exact remaining_take hd
  | work i =>
    obtain ⟨t, ht, hw⟩ := Option.bind_eq_some_iff.1 h
    exact remaining_work ht hw

/-- Every move there is, those of busy workers first. -/
def moves (c : Crew) : List Move := (List.range c.busy.length).map .work ++ [.take]

def next? (room : Bool) (c : Crew) : Option (Crew × Option Row) :=
  c.moves.findSome? (c.advance room)

theorem remaining_next {room : Bool} {c c' : Crew} {row : Option Row}
    (h : c.next? room = some (c', row)) : c'.remaining < c.remaining := by
  obtain ⟨m, _, hm⟩ := List.exists_of_findSome?_eq_some h
  exact remaining_advance hm

/-- The rows that are sent until all tasks are done, if there is always room. -/
def drain (c : Crew) : List Row × Crew :=
  match h : c.next? true with
  | none => ([], c)
  | some (c', row) =>
    have := remaining_next h
    let (rows, last) := c'.drain
    (row.toList ++ rows, last)
  termination_by c.remaining

end Crew

end EpochRewards
