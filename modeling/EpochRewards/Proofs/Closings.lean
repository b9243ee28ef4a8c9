import EpochRewards.Proofs.Tickets
import EpochRewards.Proofs.Traffic

/-!
A cache after it was closed.

Closing sets a flag and removes what is there. A call that could be answered heeds the flag or its
own result, whichever it looks at first, so an insertion that has a share can still publish.
-/

namespace EpochRewards.Cache

variable {α : Type} {c : Cache α} {t : Ticket} {call : Call α}

/-- What a call has to answer with: an insertion needs a share, and a wait a settled promise. -/
def Call.result? : Call α → Option (Answer α)
  | .insert _ _ granted => if granted then some .inserted else none
  | .wait slot seen _ => if seen.isSettled then some (delivery slot seen) else none

lemma Call.result?_ne_closed (call : Call α) : call.result? ≠ some (.refused .closed) := by
  cases call with
  | insert slot a granted => cases granted <;> nofun
  | wait slot seen attached => cases seen <;> nofun

/-- In a closed cache no call goes on waiting. -/
lemma poll_result_of_closed (hclosed : c.closed = true) (hc : c.call? t = some call) :
    (c.poll t .result).2 = some (call.result?.getD (.refused .closed)) := by
  unfold poll
  rw [hc]
  cases call with
  | insert slot a granted => cases granted <;> simp [hclosed, Call.result?]
  | wait slot seen attached => cases hs : seen.isSettled <;> simp [hclosed, hs, Call.result?]

lemma poll_closing_of_closed (hclosed : c.closed = true) (hc : c.call? t = some call) :
    c.poll t .closing = (c.drop t, some (.refused .closed)) := by
  unfold poll
  rw [hc]
  cases call with
  | insert slot a granted => simp [hclosed]
  | wait slot seen attached => simp [hclosed, drop, hc]

namespace Traffic

variable {x y z : Traffic α}

lemma closed_step (h : x.cache.closed = true) (hs : Step x y) : y.cache.closed = true := by
  cases hs with
  | beginInsert slot a => exact (closed_beginInsert ..).trans h
  | beginWait slot => exact (closed_beginWait ..).trans h
  | poll hc branch => exact (closed_poll ..).trans h
  | see hc hs => exact h
  | leave hl => exact (closed_removeEntry ..).trans h
  | drop t => exact (closed_drop ..).trans h
  | markUnavailable slot => exact h
  | shut => rfl
  | clear => exact (closed_clear _).trans h

lemma closed_after (hclosed : x.cache.closed = true)
    (hz : Relation.ReflTransGen Step x z) : z.cache.closed = true := by
  induction hz with
  | refl => exact hclosed
  | tail _ hs ih => exact closed_step ih hs

/-- Once a cache was cleared, shares are held for what has been published since alone. -/
lemma held_after_clear (hz : Relation.ReflTransGen Step { x with cache := x.cache.clear } z) :
    ∃ since, z.events = x.events ++ since ∧
      ∀ slot, z.cache.holds slot = true → Outstanding slot since := by
  induction hz with
  | refl =>
    refine ⟨[], (List.append_nil _).symm, fun slot hh => ?_⟩
    cases (holds_clear x.cache slot).symm.trans hh
  | @tail y z _ hs ih =>
    obtain ⟨since, hevents, hout⟩ := ih
    obtain ⟨more, hmore, hout⟩ := outstanding_step hout hs
    exact ⟨since ++ more, by rw [hmore, hevents, List.append_assoc], hout⟩

lemma outstanding_mem {slot : Slot} {events : List (Event α)} (h : Outstanding slot events) :
    ∃ a, .published slot a ∈ events := by
  induction events with
  | nil => exact h.elim
  | cons event events ih =>
    cases event with
    | published s a =>
      rcases h with ⟨rfl, -⟩ | h
      · exact ⟨a, List.mem_cons_self⟩
      · exact (ih h).imp fun _ => List.mem_cons_of_mem _
    | taken s a => exact (ih h).imp fun _ => List.mem_cons_of_mem _

/-- What goes on in a cache that was closed and cleared when these events had happened. -/
structure AfterClose (before : List (Event α)) (z : Traffic α) : Prop where
  closed : z.cache.closed = true
  /-- a call that heeds the closing is refused, and gives up the share that it may have -/
  closing : ∀ t call, z.cache.call? t = some call →
    z.cache.poll t .closing = (z.cache.drop t, some (.refused .closed))
  /-- a call that heeds its own result is refused if it has none -/
  result : ∀ t call, z.cache.call? t = some call →
    (z.cache.poll t .result).2 = some (call.result?.getD (.refused .closed))
  /-- so an insertion that has a share or a wait that has seen a settled promise may get by -/
  refuses : ∀ t call, z.cache.call? t = some call →
    ((∀ branch, (z.cache.poll t branch).2 = some (.refused .closed)) ↔ call.result? = none)
  /-- what is held is what such insertions have published since -/
  held : ∃ since, z.events = before ++ since ∧
    (∀ slot, z.cache.holds slot = true → Outstanding slot since) ∧
      ((∀ slot a, .published slot a ∉ since) → z.cache.size = 0)

/-- **What closing a cache achieves.** After a cache was closed and cleared, whatever steps follow,
it stays closed. No call is left waiting, and each is refused except for an insertion that has a
share and a wait that has seen a settled promise, which are refused only if they heed the closing
first. As long as no such insertion publishes nothing is held. -/
theorem after_close (hclosed : x.cache.closed = true)
    (hz : Relation.ReflTransGen Step { x with cache := x.cache.clear } z) :
    AfterClose x.events z := by
  have hz_closed : z.cache.closed = true := closed_after ((closed_clear _).trans hclosed) hz
  have hclosing {t : Ticket} {call : Call α} (hc : z.cache.call? t = some call) :
      z.cache.poll t .closing = (z.cache.drop t, some (.refused .closed)) :=
    poll_closing_of_closed hz_closed hc
  have hresult {t : Ticket} {call : Call α} (hc : z.cache.call? t = some call) :
      (z.cache.poll t .result).2 = some (call.result?.getD (.refused .closed)) :=
    poll_result_of_closed hz_closed hc
  obtain ⟨since, hevents, hout⟩ := held_after_clear hz
  refine ⟨hz_closed, fun t call => hclosing, fun t call => hresult, fun t call hc => ⟨?_, ?_⟩,
    since, hevents, hout, fun hnone => size_eq_zero fun slot => ?_⟩
  · intro hall
    have hanswer := (hresult hc).symm.trans (hall .result)
    cases hr : call.result? with
    | none => rfl
    | some answer =>
      rw [hr] at hanswer
      exact absurd (hr.trans hanswer) call.result?_ne_closed
  · intro hnone branch
    cases branch with
    | closing => rw [hclosing hc]
    | result =>
      rw [hresult hc, hnone]
      rfl
  · by_contra hholds
    obtain ⟨a, ha⟩ := outstanding_mem (hout slot (by simpa using hholds))
    exact hnone slot a ha

/-- A cache of one share that was closed before an insertion began. -/
def late : Traffic Nat where
  cache := ⟨.empty, 0, [(0, .insert 7 0 true)], 1, true⟩
  leaving := []
  events := []

lemma late_steps :
    Relation.ReflTransGen Step { start 1 with cache := (start 1).cache.close } late :=
  .single (.beginInsert 7 0)

/-- An insertion that begins after the closing has a share all the same. -/
theorem late_after_close :
    AfterClose [] late ∧ (late.cache.poll 0 .closing).2 = some (.refused .closed) ∧
      (late.cache.poll 0 .result).2 = some .inserted := by
  have hlate : AfterClose [] late :=
    after_close (x := ⟨{ Cache.ofCapacity 1 with closed := true }, [], []⟩) rfl late_steps
  exact ⟨hlate, by rw [hlate.closing 0 _ rfl], hlate.result 0 _ rfl⟩

/-- Closing is not final: an insertion that begins afterwards can still publish. -/
theorem not_final : ¬ ∀ (capacity : Nat) (x z : Traffic Nat), Reached capacity x →
    Relation.ReflTransGen Step { x with cache := x.cache.close } z →
      (∀ t call branch, z.cache.call? t = some call →
        (z.cache.poll t branch).2 = some (.refused .closed)) ∧ z.cache.size = 0 := by
  intro hfinal
  have hpublished := late_steps.tail (.poll (t := 0) rfl .result)
  have hsize := (hfinal 1 (start 1) _ .refl hpublished).2
  exact absurd hsize (by decide)

end Traffic

end EpochRewards.Cache
