import EpochRewards.Proofs.Crews
import EpochRewards.Proofs.Overflows
import Mathlib.Algebra.BigOperators.Group.List.Basic
import Mathlib.Logic.Relation

/-!
Shifts: a crew works off tasks that are queued while it is at work.

Which worker takes which task, and how the rows of tasks that are worked on at once come between one
another, is open. What is still to be sent of each task is an invariant all the same: however it is
interleaved, what was sent before makes it an interleaving of all rows of all tasks.
-/

namespace EpochRewards

/-! ### Shuffles -/

/-- One element after another is taken off one of the parts, until all are used up. -/
inductive Shuffle {α : Type} : List (List α) → List α → Prop
  | nil {parts : List (List α)} (h : ∀ part ∈ parts, part = []) : Shuffle parts []
  | next {parts : List (List α)} {i : Nat} {a : α} {part whole : List α}
      (h : parts[i]? = some (a :: part)) (rest : Shuffle (parts.set i part) whole) :
      Shuffle parts (a :: whole)

namespace Shuffle

variable {α : Type} {parts parts' : List (List α)} {part whole : List α}

lemma cons_nil (h : Shuffle parts whole) : Shuffle ([] :: parts) whole := by
  induction h with
  | nil h => exact .nil (List.forall_mem_cons.2 ⟨rfl, h⟩)
  | @next parts i a part whole h _ ih =>
    exact .next (i := i + 1) h ih

lemma cons_cons (a : α) (h : Shuffle (part :: parts) whole) :
    Shuffle ((a :: part) :: parts) (a :: whole) := .next (i := 0) rfl h

/-- The order of the parts does not matter. -/
lemma perm (h : Shuffle parts whole) (hp : parts.Perm parts') : Shuffle parts' whole := by
  induction h generalizing parts' with
  | nil h => exact .nil fun part hpart => h part (hp.mem_iff.2 hpart)
  | @next parts i a part whole h _ ih =>
    -- the same part is next in the other order, and the rests are permutations of one another
    obtain ⟨hi, hpart⟩ := List.getElem?_eq_some_iff.1 h
    obtain ⟨j, hj, hpart'⟩ := List.mem_iff_getElem.1 (hp.mem_iff.1 (List.mem_of_getElem? h))
    have hrest : (parts.eraseIdx i).Perm (parts'.eraseIdx j) := by
      have hl := List.getElem_cons_eraseIdx_perm hi
      have hr := List.getElem_cons_eraseIdx_perm hj
      rw [hpart] at hl
      rw [hpart'] at hr
      exact (hl.trans (hp.trans hr.symm)).cons_inv
    refine .next (List.getElem?_eq_some_iff.2 ⟨hj, hpart'⟩) (ih ?_)
    exact (List.set_perm_cons_eraseIdx hi part).trans
      ((hrest.cons part).trans (List.set_perm_cons_eraseIdx hj part).symm)

/-- Nothing is lost and nothing is repeated. -/
lemma perm_flatten (h : Shuffle parts whole) : whole.Perm parts.flatten := by
  induction h with
  | nil h => rw [List.flatten_eq_nil_iff.2 h]
  | @next parts i a part whole h _ ih =>
    obtain ⟨hi, hpart⟩ := List.getElem?_eq_some_iff.1 h
    have hparts := List.getElem_cons_eraseIdx_perm hi
    rw [hpart] at hparts
    have hset := (List.set_perm_cons_eraseIdx hi part).flatten
    exact (ih.trans hset).cons a |>.trans hparts.flatten

end Shuffle

/-! ### Shifts -/

structure Shift where
  /-- the tasks that are not queued yet; once there are none, the queue is closed -/
  coming : List ValidatorTask
  crew : Crew
  /-- the rows that the writer was sent -/
  sent : List Row

namespace Shift

def start (workers : Nat) (tasks : List ValidatorTask) : Shift := ⟨tasks, .ofSize workers [], []⟩

inductive Step (x : Shift) : Shift → Prop
  | queue {t : ValidatorTask} {coming : List ValidatorTask} (h : x.coming = t :: coming) :
      Step x { x with coming, crew := { x.crew with queue := x.crew.queue ++ [t] } }
  | move {m : Crew.Move} {crew : Crew} {row : Option Row}
      (h : x.crew.advance true m = some (crew, row)) :
      Step x { x with crew, sent := x.sent ++ row.toList }

/-- What the tasks may lead to, whoever takes them and whoever is next to move. -/
def Reached (workers : Nat) (tasks : List ValidatorTask) (x : Shift) : Prop :=
  Relation.ReflTransGen Step (start workers tasks) x

/-- The queue is closed and empty, and all workers are done. -/
def Joined (x : Shift) : Prop := x.coming = [] ∧ x.crew.queue = [] ∧ x.crew.busy = []

/-- A bound on the steps that are left. -/
def remaining (x : Shift) : Nat := 2 * x.coming.length + Crew.load x.coming + x.crew.remaining

/-- What is left of the tasks. -/
def tasksLeft (x : Shift) : List ValidatorTask := x.coming ++ x.crew.tasksLeft

end Shift

/-- A task with no validator whose record overflows. -/
def ValidatorTask.Calm (t : ValidatorTask) : Prop :=
  ∀ v ∈ t.validators, ∀ f : Fault, f.IsOverflow → t.bundle.resolve v ≠ .error (.fault f)

namespace ValidatorTask

variable {t : ValidatorTask} {v : ValidatorIndex} {vs : List ValidatorIndex}

/-- The rows of a task are the records of its validators under the name of its pool. -/
lemma rows_eq (t : ValidatorTask) : t.rows = t.validators.filterMap fun v =>
    (t.bundle.resolve v).toOption.map fun record => .validator { record with pool := t.pool } := by
  rw [rows, attempts, List.filterMap_map]
  congr 1
  funext v
  show Attempt.row? (t.resolve v) = _
  rw [resolve]
  cases t.bundle.resolve v <;> rfl

lemma rows_of_done (h : t.validators = []) : t.rows = [] := by
  rw [rows, attempts, h]
  rfl

lemma rows_next (h : t.validators = v :: vs) : t.rows = (Attempt.row? (t.resolve v)).toList
    ++ ({ t with validators := vs } : ValidatorTask).rows := by
  rw [rows, t.attempts_cons v vs h, List.filterMap_cons]
  cases Attempt.row? (t.resolve v) <;> rfl

lemma Calm.next (ht : t.Calm) (h : t.validators = v :: vs) :
    ({ t with validators := vs } : ValidatorTask).Calm :=
  fun u hu => ht u (h ▸ List.mem_cons_of_mem v hu)

/-- Overflows are all that could go wrong. -/
lemma Calm.resolve (ht : t.Calm) (hv : v ∈ t.validators) (f : Fault) :
    t.resolve v ≠ .error (.fault f) := by
  intro hf
  have hbundle : t.bundle.resolve v = .error (.fault f) := by
    unfold ValidatorTask.resolve at hf
    cases hresolve : t.bundle.resolve v with
    | ok record =>
      rw [hresolve] at hf
      cases hf
    | error e =>
      rw [hresolve] at hf
      cases hf
      rfl
  exact ht v hv f (Bundle.errs_resolve _ _ _ hbundle) hbundle

end ValidatorTask

/-- What the statistics come to with the tasks that workers are at. -/
def Crew.totals (c : Crew) : CrewStats where
  tasks := c.stats.tasks
  records := c.stats.records + (c.busy.map (·.records)).sum
  failedRecords := c.stats.failedRecords + (c.busy.map (·.failedRecords)).sum

namespace Shift

variable {workers : Nat} {tasks : List ValidatorTask} {x y : Shift}

/-! ### Steps -/

/-- What a step makes of the tasks that are left, of the totals and of what was sent, if no worker
is taken out. -/
inductive Advance (x y : Shift) : Prop
  | handed (left : y.tasksLeft.Perm x.tasksLeft) (totals : y.crew.totals = x.crew.totals)
      (sent : y.sent = x.sent)
  | finished {t : ValidatorTask} (left : x.tasksLeft.Perm (t :: y.tasksLeft))
      (done : t.validators = [])
      (totals : y.crew.totals = { x.crew.totals with tasks := x.crew.totals.tasks + 1 })
      (sent : y.sent = x.sent)
  | recorded {t : ValidatorTask} {v : ValidatorIndex} {vs : List ValidatorIndex}
      {others : List ValidatorTask} {record : ValidatorRecord} (next : t.validators = v :: vs)
      (resolved : t.resolve v = .ok record) (before : x.tasksLeft.Perm (t :: others))
      (after : y.tasksLeft.Perm ({ t with validators := vs } :: others))
      (totals : y.crew.totals = { x.crew.totals with records := x.crew.totals.records + 1 })
      (sent : y.sent = x.sent ++ [.validator record])
  | skipped {t : ValidatorTask} {v : ValidatorIndex} {vs : List ValidatorIndex}
      {others : List ValidatorTask} {e : RewardError} (next : t.validators = v :: vs)
      (resolved : t.resolve v = .error (.error e)) (before : x.tasksLeft.Perm (t :: others))
      (after : y.tasksLeft.Perm ({ t with validators := vs } :: others))
      (totals : y.crew.totals
        = { x.crew.totals with failedRecords := x.crew.totals.failedRecords + 1 })
      (sent : y.sent = x.sent)

end Shift

namespace Crew

variable {c : Crew} {i : Nat} {s : Stint}

/-- The totals with one stint besides all others. -/
lemma totals_busy (h : c.busy[i]? = some s) : c.totals = {
    tasks := c.stats.tasks
    records := c.stats.records + (s.records + ((c.busy.eraseIdx i).map (·.records)).sum)
    failedRecords := c.stats.failedRecords
      + (s.failedRecords + ((c.busy.eraseIdx i).map (·.failedRecords)).sum) } := by
  have hrecords := ((busy_perm h).map (·.records)).sum_eq
  have hfailed := ((busy_perm h).map (·.failedRecords)).sum_eq
  rw [List.map_cons, List.sum_cons] at hrecords hfailed
  rw [totals, hrecords, hfailed]

lemma totals_set (u : Stint) (h : c.busy[i]? = some s) :
    ({ c with busy := c.busy.set i u } : Crew).totals = {
      tasks := c.stats.tasks
      records := c.stats.records + (u.records + ((c.busy.eraseIdx i).map (·.records)).sum)
      failedRecords := c.stats.failedRecords
        + (u.failedRecords + ((c.busy.eraseIdx i).map (·.failedRecords)).sum) } := by
  have hrecords := ((set_busy_perm u h).map (·.records)).sum_eq
  have hfailed := ((set_busy_perm u h).map (·.failedRecords)).sum_eq
  rw [List.map_cons, List.sum_cons] at hrecords hfailed
  rw [totals]
  dsimp only
  rw [hrecords, hfailed]

end Crew

namespace Shift

variable {workers : Nat} {tasks : List ValidatorTask} {x y : Shift}

lemma advance_of_move {m : Crew.Move} {crew : Crew} {row : Option Row}
    (hcalm : ∀ t ∈ x.tasksLeft, t.Calm) (h : x.crew.advance true m = some (crew, row)) :
    x.Advance { x with crew, sent := x.sent ++ row.toList } := by
  have hsent : x.sent = x.sent ++ (none : Option Row).toList := (List.append_nil _).symm
  have hbefore {i : Nat} {s : Stint} (hs : x.crew.busy[i]? = some s) :
      x.tasksLeft.Perm (s.task :: (x.coming ++ x.crew.otherTasks i)) :=
    ((Crew.tasksLeft_perm hs).append_left _).trans List.perm_middle
  have hafter {i : Nat} {s : Stint} (u : Stint) (hs : x.crew.busy[i]? = some s) :
      (x.coming ++ ({ x.crew with busy := x.crew.busy.set i u } : Crew).tasksLeft).Perm
        (u.task :: (x.coming ++ x.crew.otherTasks i)) :=
    ((Crew.tasksLeft_set u hs).append_left _).trans List.perm_middle
  cases Crew.moved_of_advance h with
  | taken idle queued =>
    refine .handed ((Crew.tasksLeft_taken queued).append_left _) ?_ hsent.symm
    simp [Crew.totals]
  | @finished i s busy done =>
    refine .finished (hbefore busy) done ?_ hsent.symm
    rw [Crew.totals_busy busy]
    simp [Crew.totals, Crew.finish, Nat.add_assoc]
  | @sent i s v vs record busy next resolved =>
    refine .recorded next resolved (hbefore busy) (hafter _ busy) ?_ rfl
    rw [Crew.totals_busy busy, Crew.totals_set _ busy]
    dsimp only
    congr 1
    omega
  | @skipped i s v vs e busy next resolved =>
    refine .skipped next resolved (hbefore busy) (hafter _ busy) ?_ hsent.symm
    rw [Crew.totals_busy busy, Crew.totals_set _ busy]
    dsimp only
    congr 1
    omega
  | @crashed i s v vs f busy next resolved =>
    have htask : s.task.Calm := hcalm _ ((hbefore busy).mem_iff.2 List.mem_cons_self)
    exact (htask.resolve (next ▸ List.mem_cons_self) f resolved).elim

lemma advance_of_step (hcalm : ∀ t ∈ x.tasksLeft, t.Calm) (h : x.Step y) : x.Advance y := by
  cases h with
  | @queue t coming h =>
    refine .handed ?_ rfl rfl
    have hleft : x.tasksLeft = t :: coming ++ x.crew.tasksLeft := by rw [tasksLeft, h]
    rw [hleft]
    exact ((x.crew.tasksLeft_queue t).append_left coming).trans List.perm_middle
  | move h => exact advance_of_move hcalm h

/-! ### What steps preserve -/

lemma Advance.calm (h : x.Advance y) (hx : ∀ t ∈ x.tasksLeft, t.Calm) :
    ∀ t ∈ y.tasksLeft, t.Calm := by
  cases h with
  | handed left _ _ => exact fun t ht => hx t (left.mem_iff.1 ht)
  | finished left _ _ _ => exact fun t ht => hx t (left.mem_iff.2 (List.mem_cons_of_mem _ ht))
  | recorded next _ before after _ _ | skipped next _ before after _ _ =>
    intro u hu
    rcases List.mem_cons.1 (after.mem_iff.1 hu) with rfl | hu
    · exact (hx _ (before.mem_iff.2 List.mem_cons_self)).next next
    · exact hx u (before.mem_iff.2 (List.mem_cons_of_mem _ hu))

/-- What a step sends comes before whatever the tasks still lead to. -/
lemma Advance.shuffle (h : x.Advance y) {rest : List Row}
    (hrest : Shuffle (y.tasksLeft.map (·.rows)) rest) :
    ∃ new, y.sent = x.sent ++ new ∧ Shuffle (x.tasksLeft.map (·.rows)) (new ++ rest) := by
  have hkept (hsent : y.sent = x.sent) (hx : Shuffle (x.tasksLeft.map (·.rows)) rest) :
      ∃ new, y.sent = x.sent ++ new ∧ Shuffle (x.tasksLeft.map (·.rows)) (new ++ rest) :=
    ⟨[], hsent.trans (List.append_nil _).symm, hx⟩
  -- only a record takes the first row off a task; all else leaves the rows of the tasks as they are
  cases h with
  | handed left _ sent => exact hkept sent (hrest.perm (left.map _))
  | @finished t left done _ sent =>
    refine hkept sent (Shuffle.perm ?_ (left.map _).symm)
    rw [List.map_cons, t.rows_of_done done]
    exact hrest.cons_nil
  | @recorded t v vs others record next resolved before after _ sent =>
    have hrows : t.rows
        = .validator record :: ({ t with validators := vs } : ValidatorTask).rows := by
      rw [t.rows_next next, resolved]
      rfl
    refine ⟨[.validator record], sent, Shuffle.perm ?_ (before.map _).symm⟩
    rw [List.map_cons, hrows]
    exact (hrest.perm (after.map _)).cons_cons _
  | @skipped t v vs others e next resolved before after _ sent =>
    have hrows : t.rows = ({ t with validators := vs } : ValidatorTask).rows := by
      rw [t.rows_next next, resolved]
      rfl
    refine hkept sent (Shuffle.perm ?_ (before.map _).symm)
    rw [List.map_cons, hrows]
    exact hrest.perm (after.map _)

/-- The totals count what was done of the tasks, of which there are `n` with `k` validators in
all. -/
structure Counted (n k : Nat) (x : Shift) : Prop where
  tasks : x.crew.totals.tasks + x.tasksLeft.length = n
  records : x.crew.totals.records = x.sent.length
  validators : x.crew.totals.records + x.crew.totals.failedRecords
    + (x.tasksLeft.flatMap (·.validators)).length = k

lemma Advance.counted {n k : Nat} (h : x.Advance y) (hx : x.Counted n k) : y.Counted n k := by
  have hvalidators {ts us : List ValidatorTask} (hp : ts.Perm us) :
      (ts.flatMap (·.validators)).length = (us.flatMap (·.validators)).length :=
    (hp.flatMap_right _).length_eq
  obtain ⟨htasks, hrecords, hall⟩ := hx
  cases h with
  | handed left totals sent =>
    refine ⟨?_, ?_, ?_⟩
    · rw [totals, left.length_eq, htasks]
    · rw [totals, sent, hrecords]
    · rw [totals, hvalidators left, hall]
  | finished left done totals sent =>
    have hlength := left.length_eq
    have hempty := hvalidators left
    rw [List.length_cons] at hlength
    rw [List.flatMap_cons, done, List.nil_append] at hempty
    refine ⟨?_, ?_, ?_⟩
    · rw [totals]
      dsimp only
      omega
    · rw [totals, sent, hrecords]
    · rw [totals, ← hempty, hall]
  | recorded next _ before after totals sent | skipped next _ before after totals sent =>
    have hlength := before.length_eq.trans after.length_eq.symm
    have hbefore := hvalidators before
    have hafter := hvalidators after
    rw [List.flatMap_cons, next, List.length_append, List.length_cons] at hbefore
    rw [List.flatMap_cons, List.length_append] at hafter
    dsimp only at hafter
    refine ⟨?_, ?_, ?_⟩
    · rw [totals, ← hlength, htasks]
    · simp only [totals, sent, hrecords, List.length_append, List.length_singleton]
    · rw [totals]
      dsimp only
      omega

/-- Nobody leaves. -/
lemma strength_step (hcalm : ∀ t ∈ x.tasksLeft, t.Calm) (h : x.Step y) :
    y.crew.strength = x.crew.strength ∧ y.crew.crashes = x.crew.crashes := by
  cases h with
  | queue h => exact ⟨rfl, rfl⟩
  | move h =>
    -- the attempt that would take a worker out is one at a task that is left
    rcases Crew.advance_ok h with ⟨-, hkept⟩ | ⟨-, a, ha, f, hf⟩
    · exact hkept
    · obtain ⟨t, ht, ha⟩ := List.mem_flatMap.1 ha
      obtain ⟨v, hv, rfl⟩ := List.mem_map.1 ha
      exact ((hcalm t (List.mem_append_right _ ht)).resolve hv f hf).elim

/-- What holds in the course of a shift. -/
structure Kept (workers : Nat) (tasks : List ValidatorTask) (x : Shift) : Prop where
  calm : ∀ t ∈ x.tasksLeft, t.Calm
  strength : x.crew.strength = workers
  unharmed : x.crew.crashes = []
  order : ∀ rest, Shuffle (x.tasksLeft.map (·.rows)) rest →
    Shuffle (tasks.map (·.rows)) (x.sent ++ rest)
  counted : x.Counted tasks.length (tasks.flatMap (·.validators)).length

lemma kept_start (hcalm : ∀ t ∈ tasks, t.Calm) : (start workers tasks).Kept workers tasks := by
  have hleft : (start workers tasks).tasksLeft = tasks := List.append_nil tasks
  refine ⟨hleft.symm ▸ hcalm, Nat.add_zero _, rfl, fun rest h => hleft ▸ h, ?_, rfl, ?_⟩
  · rw [hleft]
    exact Nat.zero_add _
  · rw [hleft]
    exact Nat.zero_add _

lemma Kept.step (h : x.Kept workers tasks) (hstep : x.Step y) : y.Kept workers tasks := by
  have hadvance : x.Advance y := advance_of_step h.calm hstep
  obtain ⟨hstrength, hcrashes⟩ := strength_step h.calm hstep
  refine ⟨hadvance.calm h.calm, hstrength.trans h.strength, hcrashes.trans h.unharmed,
    fun rest hrest => ?_, hadvance.counted h.counted⟩
  obtain ⟨new, hsent, hx⟩ := hadvance.shuffle hrest
  rw [hsent, List.append_assoc]
  exact h.order _ hx

lemma Reached.kept (h : Reached workers tasks x) (hcalm : ∀ t ∈ tasks, t.Calm) :
    x.Kept workers tasks := by
  induction h with
  | refl => exact kept_start hcalm
  | tail _ hstep ih => exact ih.step hstep

/-! ### Ends -/

lemma remaining_step (h : x.Step y) : y.remaining < x.remaining := by
  cases h with
  | queue h =>
    simp only [remaining, Crew.remaining, Crew.underway, h, List.length_cons, List.length_append,
      List.length_nil, Crew.load_append, Crew.load]
    omega
  | move h => exact Nat.add_lt_add_left (Crew.remaining_advance h) _

/-- Somebody can move until all is done. -/
lemma exists_step (hstrength : 0 < x.crew.strength) (h : ¬ x.Joined) : ∃ y, x.Step y := by
  by_contra hnone
  have hcoming : x.coming = [] := by
    cases hcoming : x.coming with
    | nil => rfl
    | cons t coming => exact (hnone ⟨_, .queue hcoming⟩).elim
  have hstuck (m : Crew.Move) : x.crew.advance true m = none := by
    cases hm : x.crew.advance true m with
    | none => rfl
    | some next => exact (hnone ⟨_, .move hm⟩).elim
  obtain ⟨hqueue, hbusy, -⟩ := Crew.attemptsLeft_of_stuck hstrength hstuck
  exact h ⟨hcoming, hqueue, hbusy⟩

/-- All tasks are accounted for. -/
structure Settled (tasks : List ValidatorTask) (x : Shift) : Prop where
  /-- every record that can be resolved was sent once, under the name of the task's pool -/
  rows : x.sent.Perm (tasks.flatMap fun t => t.validators.filterMap fun v =>
    (t.bundle.resolve v).toOption.map fun record => .validator { record with pool := t.pool })
  /-- the rows of a task in the order of its validators, those of different tasks in any -/
  order : Shuffle (tasks.map (·.rows)) x.sent
  taskCount : x.crew.stats.tasks = tasks.length
  records : x.crew.stats.records = x.sent.length
  validators : x.crew.stats.records + x.crew.stats.failedRecords
    = (tasks.flatMap (·.validators)).length
  unharmed : x.crew.hasCrashed = false

lemma Kept.settled (h : x.Kept workers tasks) (hjoined : x.Joined) : x.Settled tasks := by
  obtain ⟨hcoming, hqueue, hbusy⟩ := hjoined
  have hleft : x.tasksLeft = [] := by
    rw [tasksLeft, Crew.tasksLeft, Crew.underway, hcoming, hqueue, hbusy]
    rfl
  have htotals : x.crew.totals = x.crew.stats := by
    rw [Crew.totals, hbusy]
    rfl
  obtain ⟨htasks, hrecords, hvalidators⟩ := h.counted
  rw [htotals] at htasks hrecords hvalidators
  rw [hleft] at htasks hvalidators
  have horder : Shuffle (tasks.map (·.rows)) x.sent := by
    have hall := h.order [] (hleft ▸ .nil fun _ hpart => absurd hpart List.not_mem_nil)
    rwa [List.append_nil] at hall
  refine ⟨?_, horder, htasks, hrecords, hvalidators, ?_⟩
  · simp only [← ValidatorTask.rows_eq]
    exact horder.perm_flatten
  · rw [Crew.hasCrashed, h.unharmed]
    rfl

/-- The shift goes on until all workers are done, which they are after so many steps, and then all
tasks are accounted for. -/
structure Accounted (tasks : List ValidatorTask) (x : Shift) : Prop where
  goesOn : ¬ x.Joined → ∃ y, x.Step y
  ends : ∀ y, x.Step y → y.remaining < x.remaining
  settled : x.Joined → x.Settled tasks

/-- **No record is lost or repeated.** Unless an overflow takes a worker out: however many workers
there are, whichever takes which task and however their rows come between one another, the shift
ends with one row for every record of every task that can be resolved, and with statistics that
agree. -/
theorem Reached.accounted (h : Reached workers tasks x) (hworkers : 0 < workers)
    (hcalm : ∀ t ∈ tasks, t.Calm) : x.Accounted tasks where
  goesOn := exists_step ((h.kept hcalm).strength.symm ▸ hworkers)
  ends _ := remaining_step
  settled := (h.kept hcalm).settled

/-! ### The schedule of a drain -/

/-- All tasks may be queued before anybody moves. -/
lemma steps_queue (coming queue : List ValidatorTask) (c : Crew) (sent : List Row) :
    Relation.ReflTransGen Step ⟨coming, { c with queue }, sent⟩
      ⟨[], { c with queue := queue ++ coming }, sent⟩ := by
  induction coming generalizing queue with
  | nil =>
    rw [List.append_nil]
  | cons t coming ih =>
    have hrest := ih (queue ++ [t])
    rw [List.append_assoc, List.singleton_append] at hrest
    exact .head (.queue rfl) hrest

lemma steps_drain (c : Crew) (sent : List Row) :
    Relation.ReflTransGen Step ⟨[], c, sent⟩ ⟨[], c.drain.2, sent ++ c.drain.1⟩ ∧
      ∀ m, c.drain.2.advance true m = none := by
  fun_induction Crew.drain c generalizing sent with
  | case1 c h =>
    rw [List.append_nil]
    exact ⟨.refl, Crew.stuck_of_next h⟩
  | case2 c c' row h _ rows last hdrain ih =>
    obtain ⟨hsteps, hstuck⟩ := ih (sent ++ row.toList)
    obtain ⟨m, -, hm⟩ := List.exists_of_findSome?_eq_some h
    rw [hdrain] at hsteps hstuck
    rw [List.append_assoc] at hsteps
    exact ⟨.head (.move hm) hsteps, hstuck⟩

lemma reached_drain (workers : Nat) (tasks : List ValidatorTask) : Reached workers tasks
    ⟨[], (Crew.ofSize workers tasks).drain.2, (Crew.ofSize workers tasks).drain.1⟩ :=
  (steps_queue tasks [] (.ofSize workers []) []).trans (steps_drain (.ofSize workers tasks) []).1

/-- A drain is one of the schedules, up to its end. -/
theorem drain_settled (hworkers : 0 < workers) (hcalm : ∀ t ∈ tasks, t.Calm) : Settled tasks
    ⟨[], (Crew.ofSize workers tasks).drain.2, (Crew.ofSize workers tasks).drain.1⟩ := by
  have hkept := (reached_drain workers tasks).kept hcalm
  have hstuck := (steps_drain (.ofSize workers tasks) []).2
  obtain ⟨hqueue, hbusy, -⟩ := Crew.attemptsLeft_of_stuck
    (hkept.strength.symm ▸ hworkers) hstuck
  exact hkept.settled ⟨rfl, hqueue, hbusy⟩

/-- A batch with a validator that is not registered, and a pool. -/
def clubTasks : List ValidatorTask :=
  [⟨[0, 7, 1], Bundle.lateBundle, none⟩, ⟨[1], Bundle.lateBundle, some "club"⟩]

lemma clubTasks_failures :
    (clubTasks.flatMap fun t => t.validators.map fun v => Bundle.failureOf (t.bundle.resolve v))
      = [none, some (.error (.validatorOutsideBundle 7)), none, none] := by
  cbv

lemma clubTasks_calm : ∀ t ∈ clubTasks, t.Calm := by
  intro t ht v hv f _ hresolve
  have hmem : some (.fault f) ∈ clubTasks.flatMap fun t =>
      t.validators.map fun v => Bundle.failureOf (t.bundle.resolve v) :=
    List.mem_flatMap.2 ⟨t, ht, List.mem_map.2 ⟨v, hv, by rw [hresolve]; rfl⟩⟩
  rw [clubTasks_failures] at hmem
  simp at hmem

lemma clubTasks_drain :
    (Crew.ofSize 2 clubTasks).drain.2.stats = ⟨2, 3, 1⟩ ∧
      (Crew.ofSize 2 clubTasks).drain.2.queue = [] ∧
      (Crew.ofSize 2 clubTasks).drain.2.busy = [] := by
  cbv

/-- Two workers, one of whom skips a validator. -/
theorem clubTasks_accounted :
    ∃ x, Reached 2 clubTasks x ∧ 0 < 2 ∧ (∀ t ∈ clubTasks, t.Calm) ∧ x.Joined ∧
      x.crew.stats = ⟨2, 3, 1⟩ ∧ x.Accounted clubTasks := by
  obtain ⟨hstats, hqueue, hbusy⟩ := clubTasks_drain
  exact ⟨_, reached_drain 2 clubTasks, by decide, clubTasks_calm, ⟨rfl, hqueue, hbusy⟩, hstats,
    (reached_drain 2 clubTasks).accounted (by decide) clubTasks_calm⟩

end Shift

end EpochRewards
