import EpochRewards.Cache
import EpochRewards.Download.Epoch
import EpochRewards.Download.History
import EpochRewards.Progress

/-!
Downloads: one party fetches snapshots ahead into a cache, another takes them out in order and
slides windows over them into a queue.

`advance` is a single move of a party, `none` if it has to wait or has finished. Every move
brings the download closer to its end, in whatever order the parties move.
-/

namespace EpochRewards

/-- What is downloaded and from where. -/
structure Order where
  network : Network
  range : SlotRange
  retries : Nat
  source : Source

structure Download where
  toFetch : List Epoch
  /-- the insertion that the fetching party waits for -/
  inserting : Option Cache.Ticket
  requests : Requests
  toTake : List Epoch
  /-- the epoch whose snapshot the assembling party waits for -/
  waiting : Option (Epoch × Cache.Ticket)
  history : History
  /-- a window that has no place in the queue yet -/
  outgoing : Option EpochTask
  /-- the last epochs of the windows that are incomplete -/
  abandoned : List Epoch
  assembling : Bool
  cache : Cache Snapshot
  queue : List EpochTask
  /-- the receiver of the queue has not stopped -/
  received : Bool
  crash : Option Fault
  /-- the windows that are done with, by the download or by their receiver -/
  progress : Progress

namespace Download

/-- A single queued window keeps the download from running ahead. -/
def queueCapacity : Nat := 1

def start (range : SlotRange) (cacheCapacity : Nat) (requests : Requests) : Download where
  toFetch := range.downloadEpochs.toList
  inserting := none
  requests
  toTake := range.downloadEpochs.toList
  waiting := none
  history := .start range
  outgoing := none
  abandoned := []
  assembling := true
  cache := .ofCapacity cacheCapacity
  queue := []
  received := true
  crash := none
  progress := .ofRange range

/-- A download at its start, if the capacity of its cache is within the limit. -/
def create (range : SlotRange) (cacheCapacity : Nat) (requests : Requests) :
    Except Fault Download := do
  return { start range cacheCapacity requests with cache := ← Cache.create cacheCapacity }

/-! ### The fetching party -/

/-- Fetches the next snapshot and starts to insert it. -/
def fetchNext (o : Order) (d : Download) (epoch : Epoch) (rest : List Epoch) : Download :=
  match (o.source.snapshot o.network o.retries epoch).run d.requests with
  | .ok s requests =>
    let (cache, t) := d.cache.beginInsert s.slot s
    { d with toFetch := rest, requests, cache, inserting := some t }
  | .error (.error _) requests =>
    let cache := d.cache.markUnavailable (o.network.terminalSlot epoch)
    { d with toFetch := rest, requests, cache }
  | .error (.fault f) requests =>
    { d with
      toFetch := [], requests, toTake := [], waiting := none, outgoing := none
      assembling := false, crash := some f }

/-- A closed cache ends the fetching. -/
def insertAnswered (d : Download) : Cache.Answer Snapshot → Download
  | .inserted => { d with inserting := none }
  | _ => { d with inserting := none, toFetch := [] }

def fetch (o : Order) (branch : Cache.Branch) (d : Download) : Option Download :=
  match d.inserting, d.toFetch with
  | some t, _ =>
    match d.cache.poll t branch with
    | (cache, some answer) => some ({ d with cache }.insertAnswered answer)
    | (_, none) => none
  | none, epoch :: rest => some (d.fetchNext o epoch rest)
  | none, [] => none

/-! ### The assembling party -/

/-- Slides the window on by a snapshot. -/
def slide (o : Order) (d : Download) (epoch : Epoch) (s : Option Snapshot) : Download :=
  let history := d.history.push s
  if o.range.windowEpochs.contains epoch then
    match history.window? with
    | some w => { d with history, outgoing := some w.task }
    | none =>
      { d with history, abandoned := d.abandoned ++ [epoch], progress := d.progress.advance }
  else { d with history }

/-- A closed cache ends the assembling. -/
def waitAnswered (o : Order) (d : Download) (epoch : Epoch) : Cache.Answer Snapshot → Download
  | .taken s => { d with waiting := none }.slide o epoch (some s)
  | .refused (.unavailable _) => { d with waiting := none }.slide o epoch none
  | _ => { d with waiting := none, toTake := [] }

/-- Queues a window; if nobody receives it the assembling ends. -/
def send (d : Download) (task : EpochTask) : Option Download :=
  if !d.received then some { d with outgoing := none, toTake := [] }
  else if d.queue.length < queueCapacity then
    some { d with outgoing := none, queue := d.queue ++ [task] }
  else none

def assemble (o : Order) (branch : Cache.Branch) (d : Download) : Option Download :=
  match d.outgoing, d.waiting, d.toTake with
  | some task, _, _ => d.send task
  | none, some (epoch, t), _ =>
    match d.cache.poll t branch with
    | (cache, some answer) => some ({ d with cache }.waitAnswered o epoch answer)
    | (_, none) => none
  | none, none, epoch :: rest =>
    let (cache, t) := d.cache.beginWait (o.network.terminalSlot epoch)
    some { d with cache, toTake := rest, waiting := some (epoch, t) }
  | none, none, [] =>
    if d.assembling then some { d with cache := d.cache.close, assembling := false } else none

/-! ### Moves -/

inductive Party where
  | fetcher
  | assembler
  deriving DecidableEq

def advance (o : Order) (branch : Cache.Branch) (d : Download) : Party → Option Download
  | .fetcher => d.fetch o branch
  | .assembler => d.assemble o branch

/-- Takes the first window out of the queue. -/
def receive? (d : Download) : Option (EpochTask × Download) :=
  match d.queue with
  | [] => none
  | task :: queue => some (task, { d with queue })

/-- A bound on the moves that are left, the receiver's included. -/
def remaining (d : Download) : Nat :=
  2 * d.toFetch.length + d.inserting.toList.length + 6 * d.toTake.length
    + 4 * d.waiting.toList.length + 2 * d.outgoing.toList.length + 2 * d.assembling.toNat
    + d.queue.length

theorem remaining_fetch {o : Order} {branch : Cache.Branch} {d d' : Download}
    (h : d.fetch o branch = some d') : d'.remaining < d.remaining := by
  unfold fetch at h
  split at h
  · next t hi =>
    split at h
    · next cache answer _ =>
      cases h
      cases answer <;> simp [insertAnswered, remaining, hi]
    · cases h
  · next epoch rest hi hf =>
    cases h
    unfold fetchNext
    split
    all_goals
      simp only [remaining, hi, hf, List.length_cons, List.length_nil, Option.toList_none,
        Option.toList_some, Bool.toNat_false]
      omega
  · cases h

theorem remaining_slide {o : Order} {d : Download} (epoch : Epoch) (s : Option Snapshot)
    (h : d.outgoing = none) : (d.slide o epoch s).remaining ≤ d.remaining + 2 := by
  simp only [slide]
  split
  · split
    · simp only [remaining, h, Option.toList, List.length_cons, List.length_nil]; omega
    · simp only [remaining]; omega
  · simp only [remaining]; omega

theorem remaining_waitAnswered {o : Order} {d : Download} {epoch : Epoch} {t : Cache.Ticket}
    {answer : Cache.Answer Snapshot} (ho : d.outgoing = none)
    (hw : d.waiting = some (epoch, t)) :
    (d.waitAnswered o epoch answer).remaining < d.remaining := by
  have hd : ({ d with waiting := none } : Download).remaining + 4 = d.remaining := by
    simp only [remaining, hw, Option.toList, List.length_cons, List.length_nil]; omega
  have slid (s : Option Snapshot) :
      (slide o { d with waiting := none } epoch s).remaining < d.remaining := by
    have := remaining_slide (o := o) (d := { d with waiting := none }) epoch s ho
    omega
  unfold waitAnswered
  split
  · exact slid _
  · exact slid _
  · simp only [remaining, hw, Option.toList, List.length_cons, List.length_nil]; omega

theorem remaining_send {d d' : Download} {task : EpochTask} (ho : d.outgoing = some task)
    (h : d.send task = some d') : d'.remaining < d.remaining := by
  unfold send at h
  split at h
  · cases h
    simp only [remaining, ho, Option.toList, List.length_cons, List.length_nil]; omega
  · split at h
    · cases h
      simp only [remaining, ho, Option.toList, List.length_append, List.length_cons,
        List.length_nil]
      omega
    · cases h

theorem remaining_assemble {o : Order} {branch : Cache.Branch} {d d' : Download}
    (h : d.assemble o branch = some d') : d'.remaining < d.remaining := by
  unfold assemble at h
  split at h
  · next ho => exact remaining_send ho h
  · next epoch t ho hw =>
    split at h
    · next cache answer _ =>
      cases h
      exact remaining_waitAnswered (d := { d with cache }) ho hw
    · cases h
  · next ho hw ht =>
    cases h
    simp [remaining, ho, hw, ht]; omega
  · next ho hw ht =>
    split at h
    · next ha =>
      cases h
      simp [remaining, ho, hw, ht, ha]
    · cases h

theorem remaining_advance {o : Order} {branch : Cache.Branch} {d d' : Download} {p : Party}
    (h : d.advance o branch p = some d') : d'.remaining < d.remaining := by
  cases p
  · exact remaining_fetch h
  · exact remaining_assemble h

theorem remaining_receive {d d' : Download} {task : EpochTask}
    (h : d.receive? = some (task, d')) : d'.remaining < d.remaining := by
  unfold receive? at h
  split at h
  · cases h
  · next hq => cases h; simp [remaining, hq]

/-- The windows received if each is taken as soon as it is queued, with the end of the
download. -/
def drain (o : Order) (d : Download) : List EpochTask × Download :=
  match hr : d.receive? with
  | some (task, d') =>
    have := remaining_receive hr
    let (tasks, last) := d'.drain o
    (task :: tasks, last)
  | none =>
    match ha : d.assemble o .closing with
    | some d' =>
      have := remaining_assemble ha
      d'.drain o
    | none =>
      match hf : d.fetch o .closing with
      | some d' =>
        have := remaining_fetch hf
        d'.drain o
      | none => ([], d)
  termination_by d.remaining

end Download

end EpochRewards
