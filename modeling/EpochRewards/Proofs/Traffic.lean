import EpochRewards.Proofs.Shares
import Mathlib.Logic.Relation

/-!
A cache that any number of tasks use at once.

The operations are taken apart where another task can come between: an insertion is granted its
share before it publishes, a wait that has seen a settled promise removes the entry later, and
closing the cache comes before clearing it. Shares are conserved through all of it.
-/

namespace EpochRewards.Cache

variable {α : Type}

/-- What becomes of the values. -/
inductive Event (α : Type) where
  | published (slot : Slot) (a : α)
  | taken (slot : Slot) (a : α)
  deriving DecidableEq

/-- What an answer means for the values. -/
def Call.events : Call α → Option (Answer α) → List (Event α)
  | .insert slot a _, some .inserted => [.published slot a]
  | .wait slot .., some (.taken a) => [.taken slot a]
  | _, _ => []

structure Traffic (α : Type) where
  cache : Cache α
  /-- the waits that have seen a settled promise and have not removed the entry yet -/
  leaving : List (Slot × Promise α)
  /-- the latest last -/
  events : List (Event α)

namespace Traffic

def start (capacity : Nat) : Traffic α := ⟨.ofCapacity capacity, [], []⟩

inductive Step : Traffic α → Traffic α → Prop
  | beginInsert {x : Traffic α} (slot : Slot) (a : α) :
    Step x { x with cache := (x.cache.beginInsert slot a).1 }
  | beginWait {x : Traffic α} (slot : Slot) :
    Step x { x with cache := (x.cache.beginWait slot).1 }
  | poll {x : Traffic α} {t : Ticket} {call : Call α} (hc : x.cache.call? t = some call)
    (branch : Branch) :
    Step x { x with
      cache := (x.cache.poll t branch).1
      events := x.events ++ call.events (x.cache.poll t branch).2 }
  | see {x : Traffic α} {t : Ticket} {slot : Slot} {seen : Promise α} {attached : Bool}
    (hc : x.cache.call? t = some (.wait slot seen attached)) (hs : seen.isSettled = true) :
    Step x { x with
      cache := x.cache.forget t
      leaving := x.leaving ++ [(slot, seen)] }
  | leave {x : Traffic α} {before after : List (Slot × Promise α)} {slot : Slot}
    {seen : Promise α} (hl : x.leaving = before ++ (slot, seen) :: after) :
    Step x {
      cache := x.cache.removeEntry slot
      leaving := before ++ after
      events := x.events ++ (Call.wait slot seen true).events (some (delivery slot seen)) }
  | drop {x : Traffic α} (t : Ticket) : Step x { x with cache := x.cache.drop t }
  | markUnavailable {x : Traffic α} (slot : Slot) :
    Step x { x with cache := x.cache.markUnavailable slot }
  | shut {x : Traffic α} : Step x { x with cache := { x.cache with closed := true } }
  | clear {x : Traffic α} : Step x { x with cache := x.cache.clear }

/-- The traffic that any number of operations in any order can lead to. -/
def Reached (capacity : Nat) (x : Traffic α) : Prop :=
  Relation.ReflTransGen Step (start capacity) x

/-- The last value published under a slot has not been taken. -/
def Outstanding (slot : Slot) : List (Event α) → Prop
  | [] => False
  | .published s _ :: rest => s = slot ∧ (∀ a, .taken slot a ∉ rest) ∨ Outstanding slot rest
  | .taken .. :: rest => Outstanding slot rest

/-- Every value that was published has been taken since. -/
def Consumed : List (Event α) → Prop
  | [] => True
  | .published slot a :: rest => .taken slot a ∈ rest ∧ Consumed rest
  | .taken .. :: rest => Consumed rest

/-- Shares are held for what is outstanding alone. -/
structure Sound (capacity : Nat) (x : Traffic α) : Prop where
  conserves : x.cache.Conserves capacity
  outstanding : ∀ slot, x.cache.holds slot = true → Outstanding slot x.events

variable {capacity : Nat} {x y : Traffic α} {slot : Slot} {a : α} {events more : List (Event α)}

/-! ### What is outstanding -/

lemma not_outstanding (h : Consumed events) (slot : Slot) : ¬ Outstanding slot events := by
  induction events with
  | nil => exact id
  | cons event events ih =>
    cases event with
    | published s a =>
      obtain ⟨htaken, hrest⟩ := h
      rintro (⟨rfl, hnone⟩ | hout)
      · exact hnone a htaken
      · exact ih hrest hout
    | taken s a => exact ih h

lemma outstanding_published (events : List (Event α)) (slot : Slot) (a : α) :
    Outstanding slot (events ++ [.published slot a]) := by
  induction events with
  | nil => exact .inl ⟨rfl, nofun⟩
  | cons event events ih =>
    cases event with
    | published s b => exact .inr ih
    | taken s b => exact ih

/-- What is outstanding stays so until it is taken. -/
lemma Outstanding.append (h : Outstanding slot events) (hmore : ∀ a, .taken slot a ∉ more) :
    Outstanding slot (events ++ more) := by
  induction events with
  | nil => exact h.elim
  | cons event events ih =>
    cases event with
    | published s b =>
      rcases h with ⟨hs, hnone⟩ | hout
      · refine .inl ⟨hs, fun a ha => ?_⟩
        rcases List.mem_append.1 ha with ha | ha
        · exact hnone a ha
        · exact hmore a ha
      · exact .inr (ih hout)
    | taken s b => exact ih h

lemma taken_events {call : Call α} {answer : Option (Answer α)}
    (h : .taken slot a ∈ call.events answer) :
    ∃ seen attached, call = .wait slot seen attached ∧ answer = some (.taken a) := by
  unfold Call.events at h
  split at h
  · simp at h
  · next s seen attached b =>
    obtain ⟨rfl, rfl⟩ : slot = s ∧ a = b := by simpa using h
    exact ⟨seen, attached, rfl, rfl⟩
  · cases h

/-! ### Steps -/

/-- After an answer the entries that hold a share are those from before, with the one that was
published and without the one that was taken. -/
lemma outstanding_poll {t : Ticket} {call : Call α} (hcall : x.cache.call? t = some call)
    (branch : Branch) (hx : ∀ slot, x.cache.holds slot = true → Outstanding slot events)
    (hslot : (x.cache.poll t branch).1.holds slot = true) :
    Outstanding slot (events ++ call.events (x.cache.poll t branch).2) := by
  rcases x.cache.poll_cases t branch with
    hp | ⟨-, hp⟩ | ⟨s, a, hc, hp⟩ | ⟨s, seen, attached, hc, -, hp⟩
  · rw [hp] at hslot ⊢
    refine (hx slot hslot).append fun b hb => ?_
    obtain ⟨-, -, -, hanswer⟩ := taken_events hb
    cases hanswer
  · rw [hp, holds_drop] at hslot
    rw [hp]
    refine (hx slot hslot).append fun b hb => ?_
    obtain ⟨-, -, -, hanswer⟩ := taken_events hb
    cases hanswer
  · cases hcall.symm.trans hc
    rw [hp, holds_publish] at hslot
    rw [hp]
    by_cases hs : slot = s
    · rw [hs]
      exact outstanding_published events s a
    · rw [if_neg hs] at hslot
      refine (hx slot hslot).append fun b hb => ?_
      obtain ⟨-, -, -, hanswer⟩ := taken_events hb
      cases hanswer
  · cases hcall.symm.trans hc
    rw [hp, holds_removeEntry] at hslot
    rw [hp]
    by_cases hs : slot = s
    · rw [if_pos hs] at hslot
      cases hslot
    · rw [if_neg hs] at hslot
      refine (hx slot hslot).append fun b hb => ?_
      obtain ⟨_, _, hwait, -⟩ := taken_events hb
      cases hwait
      exact hs rfl

/-- If shares are held for what is outstanding of some events, then after a step they are held for
what is outstanding of these and the new ones. -/
lemma outstanding_step (hx : ∀ slot, x.cache.holds slot = true → Outstanding slot events)
    (hs : Step x y) : ∃ more, y.events = x.events ++ more ∧
      ∀ slot, y.cache.holds slot = true → Outstanding slot (events ++ more) := by
  have hquiet (h : ∀ slot, y.cache.holds slot = true → x.cache.holds slot = true)
      (he : y.events = x.events) : ∃ more, y.events = x.events ++ more ∧
        ∀ slot, y.cache.holds slot = true → Outstanding slot (events ++ more) := by
    refine ⟨[], by rw [he, List.append_nil], fun slot hh => ?_⟩
    rw [List.append_nil]
    exact hx slot (h slot hh)
  cases hs with
  | beginInsert slot a => exact hquiet (fun s hh => by rwa [← holds_beginInsert]) rfl
  | beginWait slot => exact hquiet (fun s hh => by rwa [← holds_beginWait]) rfl
  | poll hcall branch => exact ⟨_, rfl, fun s => outstanding_poll hcall branch hx⟩
  | see hcall hsettled => exact hquiet (fun s hh => hh) rfl
  | @leave before after slot seen hl =>
    refine ⟨_, rfl, fun s hh => ?_⟩
    rw [holds_removeEntry] at hh
    by_cases hs : s = slot
    · rw [if_pos hs] at hh
      cases hh
    · rw [if_neg hs] at hh
      refine (hx s hh).append fun b hb => ?_
      obtain ⟨_, _, hwait, -⟩ := taken_events hb
      cases hwait
      exact hs rfl
  | drop t => exact hquiet (fun s hh => by rwa [← holds_drop]) rfl
  | markUnavailable slot => exact hquiet (fun s hh => by rwa [← holds_markUnavailable]) rfl
  | shut => exact hquiet (fun s hh => hh) rfl
  | clear =>
    refine hquiet (fun s hh => ?_) rfl
    rw [holds_clear] at hh
    cases hh

lemma conserves_step (hc : x.cache.Conserves capacity) (hs : Step x y) :
    y.cache.Conserves capacity := by
  cases hs with
  | beginInsert slot a => exact hc.beginInsert slot a
  | beginWait slot => exact hc.beginWait slot
  | poll hcall branch => exact hc.poll _ branch
  | see hcall hsettled => exact hc.forget hcall rfl
  | leave hl => exact hc.removeEntry _
  | drop t => exact hc.drop t
  | markUnavailable slot => exact hc.markUnavailable slot
  | shut => exact ⟨hc.tickets, hc.before, hc.shares, hc.starved, hc.published⟩
  | clear => exact hc.removeAll _

lemma sound_step (h : x.Sound capacity) (hs : Step x y) : y.Sound capacity := by
  obtain ⟨more, hevents, houtstanding⟩ := outstanding_step h.outstanding hs
  rw [← hevents] at houtstanding
  exact ⟨conserves_step h.conserves hs, houtstanding⟩

lemma sound_reached (hr : Reached capacity x) : x.Sound capacity := by
  induction hr with
  | refl => exact ⟨conserves_ofCapacity capacity, nofun⟩
  | tail _ hs ih => exact sound_step ih hs

/-- **No share is lost.** However the operations of any number of tasks follow on one another, on
whatever slots, each share of the capacity is with an entry, with an insertion that has been granted
it, or free. So no more values are published and not taken than there are shares, an insertion only
waits while all shares are with entries or with other insertions, and once everything that was
published is taken, or the cache is cleared, all shares are free except those of insertions. -/
theorem Reached.shares_conserved (hr : Reached capacity x) :
    x.cache.size + x.cache.free + x.cache.inTransit = capacity ∧
      x.cache.unconsumed ≤ x.cache.size ∧
      (∀ t slot a granted branch, x.cache.call? t = some (.insert slot a granted) →
        (x.cache.poll t branch).2 = none →
          x.cache.free = 0 ∧ x.cache.size + x.cache.inTransit = capacity) ∧
      (Consumed x.events → x.cache.size = 0 ∧ x.cache.free + x.cache.inTransit = capacity) ∧
      x.cache.clear.size = 0 ∧ x.cache.clear.free + x.cache.clear.inTransit = capacity ∧
        (x.cache.Idle → x.cache.clear.free = capacity) := by
  have hsound := sound_reached hr
  have hc := hsound.conserves
  have hshares := hc.shares
  have hcleared := hc.clear.shares
  rw [size_clear, Nat.zero_add] at hcleared
  refine ⟨hshares, hc.unconsumed_le, fun t slot a granted branch hcall hnone => ?_, fun hall => ?_,
    size_clear _, hcleared, fun hidle => ?_⟩
  · have hfree := hc.free_of_waiting hcall hnone
    exact ⟨hfree, by omega⟩
  · have hempty : x.cache.size = 0 := size_eq_zero fun slot => by
      by_contra hheld
      exact not_outstanding hall slot (hsound.outstanding slot (by simpa using hheld))
    exact ⟨hempty, by omega⟩
  · rw [hidle.clear.inTransit] at hcleared
    exact hcleared

/-- The only share has been returned and granted to an insertion that has not gone on since. -/
def crowded : Traffic Nat where
  cache := ⟨.empty, 0, [(1, .insert 15 1 true), (3, .insert 23 2 false)], 4, false⟩
  leaving := []
  events := [.published 7 0, .taken 7 0]

lemma reached_crowded : Reached 1 crowded := by
  have hbegun : Reached 1 _ := (Relation.ReflTransGen.refl (a := start 1)).tail (.beginInsert 7 0)
  have hpublished := hbegun.tail (.poll (t := 0) rfl .result)
  have hqueued := hpublished.tail (.beginInsert 15 1)
  have hwaiting := hqueued.tail (.beginWait 7)
  have htaken := hwaiting.tail (.poll (t := 2) rfl .result)
  exact htaken.tail (.beginInsert 23 2)

/-- All shares are accounted for although none is free and none is with an entry. -/
theorem crowded_shares : Reached 1 crowded ∧ crowded.cache.inTransit = 1 ∧
    crowded.cache.size + crowded.cache.free + crowded.cache.inTransit = 1 ∧
    crowded.cache.clear.free + crowded.cache.clear.inTransit = 1 := by
  obtain ⟨hshares, -, -, -, -, hcleared, -⟩ := reached_crowded.shares_conserved
  exact ⟨reached_crowded, rfl, hshares, hcleared⟩

/-- A returned share is granted at once, so an insertion can wait while the cache is empty, and not
every share is free although all that was published is taken. -/
theorem waits_for_empty_cache : ∃ x : Traffic Nat, Reached 1 x ∧ Consumed x.events ∧
    x.cache.size = 0 ∧ x.cache.free = 0 ∧
    ∃ t slot a, x.cache.call? t = some (.insert slot a false) ∧
      ∀ branch, (x.cache.poll t branch).2 = none :=
  ⟨crowded, reached_crowded, ⟨List.mem_singleton.2 rfl, trivial⟩, rfl, rfl, 3, 23, 2, rfl,
    fun _ => rfl⟩

end Traffic

end EpochRewards.Cache
