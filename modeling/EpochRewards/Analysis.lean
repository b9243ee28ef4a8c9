import EpochRewards.Crew
import EpochRewards.Download

/-!
Analyses: a download, the dispatch of its windows, a crew and a writer, joined by queues.

`advance` is a single move of one of them, `none` if it has to wait or has nothing left to do.
Every move shortens what is left, so an analysis ends whatever the order of the moves is.
-/

namespace EpochRewards

/-- What is analysed, how, and where the rows go. -/
structure Commission (σ : Type) where
  plan : Plan
  order : Order
  store : Store σ

structure Analysis (σ : Type) where
  download : Download
  /-- what is dispatched of the last window and not yet queued -/
  dispatches : List Dispatch
  report : DispatchReport
  dispatchCrash : Option Fault
  crew : Crew
  messages : List Message
  writer : Writer σ

namespace Analysis

variable {σ : Type}

def start (k : Commission σ) (requests : Requests) (contents : σ) : Analysis σ where
  download := .start k.order.range k.plan.cacheCapacity.val requests
  dispatches := []
  report := .empty
  dispatchCrash := none
  crew := .ofSize k.plan.workers.val []
  messages := []
  writer := .start contents

def progress (a : Analysis σ) : Progress := a.download.progress

/-! ### Moves -/

def hasRoom (k : Commission σ) (a : Analysis σ) : Bool :=
  a.messages.length < k.plan.queueCapacity.val

/-- Ends the dispatch; nobody receives windows then. -/
def stopDispatch (a : Analysis σ) : Analysis σ :=
  { a with download := { a.download with received := false }, dispatches := [] }

/-- One more window is done with. -/
def advanceProgress (a : Analysis σ) : Analysis σ :=
  { a with download := { a.download with progress := a.download.progress.advance } }

/-- Queues the next thing that is dispatched: rows for the writer, tasks for the crew. If no
worker is left to take a task the dispatch ends. After the last thing the window is done with. -/
def queueDispatch (k : Commission σ) (a : Analysis σ) (rest : List Dispatch) :
    Dispatch → Option (Analysis σ)
  | .message m =>
    if a.hasRoom k then some { a with dispatches := rest, messages := a.messages ++ [m] } else none
  | .task t =>
    if a.crew.isGone then some a.stopDispatch
    else if a.crew.queue.length < k.plan.workers.val then
      some { a with dispatches := rest, crew := { a.crew with queue := a.crew.queue ++ [t] } }
    else none
  | .done => some { a with dispatches := rest }.advanceProgress

/-- Accounts the next window. A fault ends the dispatch. -/
def dispatchNext (k : Commission σ) (a : Analysis σ) (task : EpochTask) (download : Download) :
    Analysis σ :=
  match k.plan.process k.order.network k.order.range a.report task.window with
  | .ok (report, dispatches) => { a with download, report, dispatches }
  | .error f => { a with download, dispatchCrash := some f }.stopDispatch

def dispatch (k : Commission σ) (a : Analysis σ) : Option (Analysis σ) :=
  if a.download.received then
    match a.dispatches with
    | d :: rest => a.queueDispatch k rest d
    | [] => a.download.receive?.map fun (task, download) => a.dispatchNext k task download
  else none

def sent (a : Analysis σ) (crew : Crew) (row : Option Row) : Analysis σ :=
  { a with crew, messages := a.messages ++ row.toList.map .row }

def write (k : Commission σ) (a : Analysis σ) : Option (Analysis σ) :=
  match a.messages with
  | [] => none
  | m :: messages =>
    some { a with messages, writer := a.writer.handle k.store k.plan.batchSize m }

inductive Actor where
  | fetcher
  | assembler
  | dispatcher
  | worker (m : Crew.Move)
  | writer
  deriving DecidableEq

def advance (k : Commission σ) (branch : Cache.Branch) (a : Analysis σ) :
    Actor → Option (Analysis σ)
  | .fetcher => (a.download.advance k.order branch .fetcher).map ({ a with download := · })
  | .assembler => (a.download.advance k.order branch .assembler).map ({ a with download := · })
  | .dispatcher => a.dispatch k
  | .worker m => (a.crew.advance (a.hasRoom k) m).map fun (crew, row) => a.sent crew row
  | .writer => a.write k

/-! ### Work left -/

/-- What is left in front of the crew, in the crew and behind it. -/
def remaining (a : Analysis σ) : Nat × Nat × Nat × Nat :=
  (a.download.remaining, a.dispatches.length, a.crew.remaining, a.messages.length)

/-- The order in which a move that leaves more work behind it still makes headway. -/
abbrev Headway : Nat × Nat × Nat × Nat → Nat × Nat × Nat × Nat → Prop :=
  Prod.Lex (· < ·) (Prod.Lex (· < ·) (Prod.Lex (· < ·) (· < ·)))

theorem remaining_dispatchNext {k : Commission σ} {a : Analysis σ} {task : EpochTask}
    {d : Download} : (a.dispatchNext k task d).download.remaining = d.remaining := by
  unfold dispatchNext
  split <;> rfl

theorem headway_dispatch {k : Commission σ} {a a' : Analysis σ} (h : a.dispatch k = some a') :
    Headway a'.remaining a.remaining := by
  unfold dispatch at h
  split at h
  · split at h
    · next d rest hd =>
      unfold queueDispatch at h
      split at h
      · split at h
        · cases h
          exact .right _ (.left _ _ (by simp [hd]))
        · cases h
      · split at h
        · cases h
          exact .right _ (.left _ _ (by simp [hd, stopDispatch]))
        · split at h
          · cases h
            exact .right _ (.left _ _ (by simp [hd]))
          · cases h
      · cases h
        exact .right _ (.left _ _ (by simp [hd, advanceProgress]))
    · obtain ⟨⟨task, download⟩, hr, rfl⟩ := Option.map_eq_some_iff.1 h
      refine .left _ _ ?_
      rw [remaining_dispatchNext]
      exact Download.remaining_receive hr
  · cases h

theorem headway_advance {k : Commission σ} {branch : Cache.Branch} {a a' : Analysis σ}
    {actor : Actor} (h : a.advance k branch actor = some a') :
    Headway a'.remaining a.remaining := by
  cases actor with
  | fetcher =>
    obtain ⟨d, hd, rfl⟩ := Option.map_eq_some_iff.1 h
    exact .left _ _ (Download.remaining_advance hd)
  | assembler =>
    obtain ⟨d, hd, rfl⟩ := Option.map_eq_some_iff.1 h
    exact .left _ _ (Download.remaining_advance hd)
  | dispatcher => exact headway_dispatch h
  | worker m =>
    obtain ⟨⟨crew, row⟩, hc, rfl⟩ := Option.map_eq_some_iff.1 h
    exact .right _ (.right _ (.left _ _ (Crew.remaining_advance hc)))
  | writer =>
    simp only [advance, write] at h
    split at h
    · cases h
    · next hm =>
      cases h
      exact .right _ (.right _ (.right _ (by simp [hm])))

/-- Everybody who can move, those behind the crew first. -/
def actors (a : Analysis σ) : List Actor :=
  .writer :: a.crew.moves.map .worker ++ [.dispatcher, .assembler, .fetcher]

def next? (k : Commission σ) (a : Analysis σ) : Option (Analysis σ) :=
  a.actors.findSome? (a.advance k .closing)

/-- Moves until nobody can move any more. -/
def settle (k : Commission σ) (a : Analysis σ) : Analysis σ :=
  match h : a.next? k with
  | none => a
  | some a' =>
    have : Headway a'.remaining a.remaining := by
      obtain ⟨_, _, hi⟩ := List.exists_of_findSome?_eq_some h
      exact headway_advance hi
    a'.settle k
  termination_by a.remaining
  decreasing_by exact this

end Analysis

/-! ### Whole runs -/

structure RunReport where
  /-- epochs whose validators were accounted -/
  processedEpochs : List Epoch
  /-- epochs with rows missing, in ascending order -/
  abandonedEpochs : List Epoch
  validatorTasks : Nat
  validatorRecords : Nat
  rowsWritten : Nat
  rowsLost : Nat
  deriving DecidableEq

inductive RunFailure where
  | refused (e : RunError)
  | store (e : StoreError)
  /-- a part of the analysis stopped in a fault or waits for what never comes -/
  | crashed
  deriving DecidableEq

/-- What a run leaves behind. -/
structure RunEnd (σ : Type) where
  result : Except (Failure RunFailure) RunReport
  contents : σ
  requests : Requests

namespace Analysis

variable {σ : Type}

def hasCrashed (a : Analysis σ) : Bool :=
  a.download.crash.isSome || a.dispatchCrash.isSome || a.crew.hasCrashed

def runReport (r : SlotRange) (a : Analysis σ) : RunReport :=
  let abandoned := a.download.abandoned ++ a.report.abandoned
  { processedEpochs := a.report.processed
    abandonedEpochs := (Ledger.ofList ((abandoned.flatMap r.coveredBy).map (·, ()))).keys
    validatorTasks := a.report.taskCount
    validatorRecords := a.crew.stats.records
    rowsWritten := a.writer.report.rowsWritten
    rowsLost := a.writer.report.rowsLost }

/-- Writes what is left, closes the store and reports. -/
def conclude (k : Commission σ) (a : Analysis σ) : RunEnd σ :=
  let a := { a with writer := a.writer.finish k.store }
  let done (contents : σ) (result : Except (Failure RunFailure) RunReport) : RunEnd σ :=
    ⟨result, contents, a.download.requests⟩
  match (k.store.close).run a.writer.contents with
  | .error e contents => done contents (.error (.error (.store e)))
  | .ok _ contents =>
    if a.hasCrashed || a.download.assembling then done contents (.error (.error .crashed))
    else done contents (.ok (a.runReport k.order.range))

end Analysis

namespace Plan

variable {σ : Type}

/-- The bytes that a queued task takes. -/
def queuedTaskSize : Nat := 72

/-- The sizes of the cache, of the queue of the workers and of the queue of the writer are within
the limits. -/
def checkSizes (p : Plan) : Except Fault Unit := do
  Capacity.shares p.cacheCapacity.val
  Capacity.space queuedTaskSize p.workers.val
  Capacity.shares p.queueCapacity.val

/-- The range of a plan that can be carried out. -/
def range (p : Plan) (net : Network) : Except (Failure RunFailure) SlotRange := do
  let refused {α : Type} (x : Except RunError α) : Except (Failure RunFailure) α :=
    x.mapError fun e => .error (.refused e)
  refused p.validate
  let r ← refused (SlotRange.ofSlots net p.initSlot p.finalSlot)
  let _ ← r.windowCount
  p.checkSizes
  return r

/-- A run that is cancelled beforehand only closes the store. -/
def cancel (store : Store σ) (requests : Requests) (contents : σ) : RunEnd σ :=
  match store.close.run contents with
  | .error e contents => ⟨.error (.error (.store e)), contents, requests⟩
  | .ok _ contents => ⟨.error (.error (.refused .cancelled)), contents, requests⟩

def run (p : Plan) (net : Network) (source : Source) (store : Store σ) (cancelled : Bool)
    (requests : Requests) (contents : σ) : RunEnd σ :=
  match p.range net with
  | .error e => ⟨.error e, contents, requests⟩
  | .ok range =>
    let k : Commission σ := ⟨p, ⟨net, range, p.fetchRetries, source⟩, store⟩
    if cancelled then cancel store requests contents
    else ((Analysis.start k requests contents).settle k).conclude k

end Plan

end EpochRewards
