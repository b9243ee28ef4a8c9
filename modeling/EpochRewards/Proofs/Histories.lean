import EpochRewards.Proofs.Views
import Mathlib.Data.List.Infix

/-!
Histories of the slots of an open cache.

If a slot has one waiter at a time and is not settled again before the last settlement has been
taken, then its settlements are answered one after another, once each. What is left of the slot
follows from what happened to it alone, in whatever order that was and whatever happened to other
slots meanwhile.
-/

namespace EpochRewards.Cache

variable {α : Type}

/-! ### What happened to a slot -/

/-- The values that the slot was settled with, `none` where it was marked unavailable. -/
def settlements (acts : List (Act α)) : List (Option α) :=
  acts.filterMap fun
    | .settled value => some value
    | _ => none

def answers (acts : List (Act α)) : List (Answer α) :=
  acts.filterMap fun
    | .answered answer => some answer
    | _ => none

/-- How many waits were begun. -/
def asks (acts : List (Act α)) : Nat :=
  acts.countP fun
    | .asked => true
    | _ => false

/-- How many waits came to an end. -/
def ends (acts : List (Act α)) : Nat :=
  acts.countP fun
    | .gaveUp | .answered _ => true
    | _ => false

/-- At no time is there a second waiter, or a second settlement that nobody was answered with. -/
def Orderly (acts : List (Act α)) : Prop :=
  ∀ before, before <+: acts →
    asks before ≤ ends before + 1 ∧ (settlements before).length ≤ (answers before).length + 1

/-- How a slot stands after what happened to it. -/
structure Standing (α : Type) where
  /-- what the slot was settled with last, if there was no answer since -/
  due : Option (Option α)
  /-- somebody has begun to wait since the last answer -/
  awaited : Bool

namespace Standing

def next (st : Standing α) : Act α → Standing α
  | .asked => { st with awaited := true }
  | .gaveUp => st
  | .settled value => { st with due := some value }
  | .answered _ => ⟨none, false⟩

def entry : Standing α → Option (Entry α)
  | ⟨some value, _⟩ => some (settled value)
  | ⟨none, true⟩ => some ⟨.pending, false⟩
  | ⟨none, false⟩ => none

end Standing

def standing (acts : List (Act α)) : Standing α := acts.foldl Standing.next ⟨none, false⟩

variable {acts more : List (Act α)} {act : Act α} {s : Slot} {v w : View α}

lemma settlements_append (acts more : List (Act α)) :
    settlements (acts ++ more) = settlements acts ++ settlements more := List.filterMap_append

lemma answers_append (acts more : List (Act α)) :
    answers (acts ++ more) = answers acts ++ answers more := List.filterMap_append

lemma asks_append (acts more : List (Act α)) : asks (acts ++ more) = asks acts + asks more :=
  List.countP_append

lemma ends_append (acts more : List (Act α)) : ends (acts ++ more) = ends acts + ends more :=
  List.countP_append

lemma standing_append (acts : List (Act α)) (act : Act α) :
    standing (acts ++ [act]) = (standing acts).next act := by
  rw [standing, List.foldl_append]
  rfl

lemma Orderly.of_append (h : Orderly (acts ++ more)) : Orderly acts :=
  fun before hb => h before (hb.trans (List.prefix_append acts more))

lemma Orderly.self (h : Orderly acts) :
    asks acts ≤ ends acts + 1 ∧ (settlements acts).length ≤ (answers acts).length + 1 :=
  h acts (List.prefix_refl acts)

/-! ### What is seen of a slot -/

/-- What is seen of a slot is what is due, and the one who waits sees it too. -/
structure Kept (s : Slot) (acts : List (Act α)) (v : View α) : Prop where
  waiters : v.waits.length + v.leaving.length + ends acts = asks acts
  delivered : answers acts ++ ((standing acts).due.map (answerOf s)).toList
    = (settlements acts).map (answerOf s)
  entry : v.entry = (standing acts).entry
  waits : ∀ w ∈ v.waits, w.2 = true ∧ v.entry.map (·.promise) = some w.1
  leaving : ∀ seen ∈ v.leaving, ∃ value, (standing acts).due = some value ∧
    seen = (settled value).promise

lemma kept_nil (s : Slot) : Kept s ([] : List (Act α)) ⟨none, [], []⟩ where
  waiters := rfl
  delivered := rfl
  entry := rfl
  waits := nofun
  leaving := nofun

lemma delivery_settled (s : Slot) (value : Option α) :
    delivery s (settled value).promise = answerOf s value := by
  cases value <;> rfl

lemma Standing.due_of_isSettled {st : Standing α} {seen : Promise α}
    (h : st.entry.map (·.promise) = some seen) (hs : seen.isSettled = true) :
    ∃ value, st.due = some value ∧ seen = (settled value).promise := by
  obtain ⟨due, awaited⟩ := st
  cases due with
  | some value => exact ⟨value, rfl, (Option.some.inj h).symm⟩
  | none =>
    cases awaited with
    | false => cases h
    | true =>
      rw [← Option.some.inj h] at hs
      cases hs

lemma Standing.eq_of_entry_none {st : Standing α} (h : st.entry = none) : st = ⟨none, false⟩ := by
  obtain ⟨due, awaited⟩ := st
  cases due with
  | some value => cases h
  | none =>
    cases awaited with
    | false => rfl
    | true => cases h

lemma Standing.entry_of_due {st : Standing α} {value : Option α} (h : st.due = some value) :
    st.entry = some (settled value) := by
  obtain ⟨due, awaited⟩ := st
  cases h
  rfl

lemma Standing.entry_congr {st st' : Standing α} (hdue : st.due = st'.due)
    (hawaited : st.due = none → st.awaited = st'.awaited) : st.entry = st'.entry := by
  obtain ⟨due, awaited⟩ := st
  obtain ⟨due', awaited'⟩ := st'
  cases hdue
  cases due with
  | some value => rfl
  | none =>
    cases hawaited rfl
    rfl

lemma Standing.keeps_no_share {st : Standing α} (h : st.due = none) :
    (st.entry.map (·.holdsShare)).getD false = false := by
  obtain ⟨due, awaited⟩ := st
  cases h
  cases awaited <;> rfl

lemma Standing.entry_awaited {st : Standing α} {e : Entry α} (h : st.entry = some e) :
    ({ st with awaited := true } : Standing α).entry = some e := by
  obtain ⟨due, awaited⟩ := st
  cases due with
  | some value => exact h
  | none =>
    cases awaited with
    | false => cases h
    | true => exact h

namespace Kept

/-- Nothing is due where the next settlement is in order. -/
lemma due_eq_none (h : Kept s acts v) {value : Option α}
    (ho : Orderly (acts ++ [.settled value])) : (standing acts).due = none := by
  have hcount := ho.self.2
  have hlength := congrArg List.length h.delivered
  rw [settlements_append, answers_append, List.length_append, List.length_append] at hcount
  rw [List.length_append, List.length_map] at hlength
  have hone : (settlements [Act.settled value]).length = 1 := rfl
  have hzero : (answers [Act.settled value]).length = 0 := rfl
  cases hdue : (standing acts).due with
  | none => rfl
  | some value =>
    rw [hdue] at hlength
    have hsome : ((some value).map (answerOf s)).toList.length = 1 := rfl
    omega

/-- What neither settles nor answers leaves the deliveries alone. -/
lemma delivered_append (h : Kept s acts v) (hanswers : answers [act] = [])
    (hsettlements : settlements [act] = [])
    (hdue : ((standing acts).next act).due = (standing acts).due) :
    answers (acts ++ [act]) ++ ((standing (acts ++ [act])).due.map (answerOf s)).toList
      = (settlements (acts ++ [act])).map (answerOf s) := by
  rw [answers_append, settlements_append, standing_append, hanswers, hsettlements, hdue,
    List.append_nil, List.append_nil]
  exact h.delivered

lemma waits_eq_nil (h : Kept s acts v) (he : v.entry = none) : v.waits = [] := by
  refine List.eq_nil_iff_forall_not_mem.2 fun w hw => ?_
  have hseen := (h.waits w hw).2
  rw [he] at hseen
  cases hseen

lemma leaving_eq_nil (h : Kept s acts v) (hdue : (standing acts).due = none) :
    v.leaving = [] := by
  refine List.eq_nil_iff_forall_not_mem.2 fun seen hseen => ?_
  obtain ⟨value, hvalue, -⟩ := h.leaving seen hseen
  rw [hdue] at hvalue
  cases hvalue

lemma ask (h : Kept s acts v) {e : Entry α} (he : v.entry = some e) :
    Kept s (acts ++ [.asked]) { v with waits := v.waits ++ [(e.promise, true)] } where
  waiters := by
    have hw := h.waiters
    rw [ends_append, asks_append, List.length_append]
    show v.waits.length + 1 + v.leaving.length + (ends acts + 0) = asks acts + 1
    omega
  delivered := h.delivered_append rfl rfl rfl
  entry := by
    rw [standing_append]
    exact he.trans (Standing.entry_awaited (h.entry.symm.trans he)).symm
  waits w hw := by
    rcases List.mem_append.1 hw with hw | hw
    · exact h.waits w hw
    · rw [List.mem_singleton.1 hw]
      exact ⟨rfl, congrArg _ he⟩
  leaving := by
    rw [standing_append]
    exact h.leaving

lemma askFirst (h : Kept s acts v) (he : v.entry = none) :
    Kept s (acts ++ [.asked]) { v with
      entry := some ⟨.pending, false⟩
      waits := v.waits.map (told .pending) ++ [(.pending, true)] } := by
  have hstanding := Standing.eq_of_entry_none (h.entry.symm.trans he)
  have hw := h.waiters
  rw [h.waits_eq_nil he]
  rw [h.waits_eq_nil he] at hw
  refine ⟨?_, h.delivered_append rfl rfl rfl, ?_, fun w hw => ?_, ?_⟩
  · rw [ends_append, asks_append]
    show 1 + v.leaving.length + (ends acts + 0) = asks acts + 1
    rw [List.length_nil] at hw
    omega
  · rw [standing_append, hstanding]
    rfl
  · rw [List.mem_singleton.1 hw]
    exact ⟨rfl, rfl⟩
  · rw [standing_append]
    exact h.leaving

/-- A wait that is given up is one less. -/
lemma giveUp (h : Kept s acts v) {before after : List (Promise α × Bool)}
    {w : Promise α × Bool} (hw : v.waits = before ++ [w] ++ after) :
    Kept s (acts ++ [.gaveUp]) { v with waits := before ++ after } where
  waiters := by
    have hwaiters := h.waiters
    rw [hw, List.length_append, List.length_append, List.length_singleton] at hwaiters
    rw [ends_append, asks_append, List.length_append]
    show before.length + after.length + v.leaving.length + (ends acts + 1) = asks acts + 0
    omega
  delivered := h.delivered_append rfl rfl rfl
  entry := by
    rw [standing_append]
    exact h.entry
  waits u hu := by
    refine h.waits u ?_
    rw [hw]
    simp only [List.mem_append] at hu ⊢
    exact hu.imp_left .inl
  leaving := by
    rw [standing_append]
    exact h.leaving

/-- The one who waits is told of a settlement. -/
lemma settle (h : Kept s acts v) {value : Option α} (ho : Orderly (acts ++ [.settled value])) :
    Kept s (acts ++ [.settled value]) { v with
      entry := some (settled value)
      waits := v.waits.map (told (settled value).promise) } where
  waiters := by
    rw [ends_append, asks_append, List.length_map]
    exact h.waiters
  delivered := by
    have hdelivered := h.delivered
    rw [h.due_eq_none ho] at hdelivered
    rw [answers_append, settlements_append, standing_append, List.map_append, ← hdelivered]
    simp [answers, settlements, Standing.next]
  entry := by
    rw [standing_append]
    rfl
  waits w hw := by
    obtain ⟨u, hu, rfl⟩ := List.mem_map.1 hw
    rw [told, if_pos (h.waits u hu).1]
    exact ⟨rfl, rfl⟩
  leaving := by
    rw [h.leaving_eq_nil (h.due_eq_none ho)]
    intro seen hseen
    cases hseen

/-- One who has seen what is due takes it, and nobody else is left. -/
lemma answer (h : Kept s acts v) (ho : Orderly acts) {seen : Promise α} {value : Option α}
    (hdue : (standing acts).due = some value) (hseen : seen = (settled value).promise)
    (hlast : w.waits.length + w.leaving.length + 1 = v.waits.length + v.leaving.length)
    (he : w.entry = none) : Kept s (acts ++ [.answered (delivery s seen)]) w := by
  have hwaiters := h.waiters
  have hone := ho.self.1
  have hwaits : w.waits = [] := List.length_eq_zero_iff.1 (by omega)
  have hleaving : w.leaving = [] := List.length_eq_zero_iff.1 (by omega)
  refine ⟨?_, ?_, ?_, by rw [hwaits]; nofun, by rw [hleaving]; nofun⟩
  · rw [ends_append, asks_append]
    show w.waits.length + w.leaving.length + (ends acts + 1) = asks acts + 0
    omega
  · have hdelivered := h.delivered
    rw [hdue] at hdelivered
    rw [answers_append, settlements_append, standing_append, hseen, delivery_settled,
      List.map_append, ← hdelivered]
    simp [answers, settlements, Standing.next]
  · rw [standing_append]
    exact he

end Kept

/-- **One move at a slot.** What is seen of a slot goes on to be what is due. -/
lemma Kept.move (h : Kept s acts v) (ho : Orderly (acts ++ more)) (hm : View.Move s v more w) :
    Kept s (acts ++ more) w := by
  cases hm with
  | stay => rwa [List.append_nil]
  | askFirst he => exact h.askFirst he
  | ask he => exact h.ask he
  | giveUp hw => exact h.giveUp hw
  | publish a => exact h.settle ho
  | mark =>
    have hshare : v.holds = false := by
      rw [View.holds, h.entry]
      exact Standing.keeps_no_share (h.due_eq_none ho)
    rw [hshare]
    exact h.settle ho
  | @see before after seen attached hw hs =>
    rw [List.append_nil]
    have hmem : (seen, attached) ∈ v.waits := by simp [hw]
    have hwaiters := h.waiters
    rw [hw, List.length_append, List.length_append, List.length_singleton] at hwaiters
    refine ⟨?_, h.delivered, h.entry, fun u hu => h.waits u ?_, fun p hp => ?_⟩
    · rw [List.length_append, List.length_append, List.length_singleton]
      omega
    · rw [hw]
      simp only [List.mem_append] at hu ⊢
      exact hu.imp_left .inl
    · rcases List.mem_append.1 hp with hp | hp
      · exact h.leaving p hp
      · rw [List.mem_singleton.1 hp]
        refine Standing.due_of_isSettled ?_ hs
        rw [← h.entry]
        exact (h.waits _ hmem).2
  | @leave before after seen hl =>
    obtain ⟨value, hdue, hseen⟩ := h.leaving seen (by simp [hl])
    refine h.answer ho.of_append hdue hseen ?_ rfl
    rw [hl]
    simp [View.detached]
    omega
  | @answer before after seen attached hw hs =>
    have hmem : (seen, attached) ∈ v.waits := by simp [hw]
    obtain ⟨value, hdue, hseen⟩ := Standing.due_of_isSettled (h.entry ▸ (h.waits _ hmem).2) hs
    refine h.answer ho.of_append hdue hseen ?_ rfl
    rw [hw]
    simp [View.detached]
    omega
  | @refuse before after seen hw =>
    have hmem : (seen, false) ∈ v.waits := by simp [hw]
    cases (h.waits _ hmem).1

/-! ### Courses -/

/-- What the tasks do to the slots of an open cache, the latest last, and where it leads. -/
inductive Course (capacity : Nat) : List (Slot × Act α) → Traffic α → Prop
  | start : Course capacity [] (.start capacity)
  | move {log more : List (Slot × Act α)} {x y : Traffic α} (h : Course capacity log x)
    (hm : x.Move more y) : Course capacity (log ++ more) y

variable {capacity : Nat} {log log' : List (Slot × Act α)} {x y : Traffic α}

namespace Course

lemma reached (h : Course capacity log x) : Traffic.Reached capacity x := by
  induction h with
  | start => exact .refl
  | move _ hm ih => exact ih.tail hm.step

lemma isOpen (h : Course capacity log x) : x.cache.closed = false := by
  induction h with
  | start => rfl
  | move _ hm ih => exact hm.closed.trans ih

lemma kept (h : Course capacity log x) (ho : Orderly (actsOn s log)) :
    Kept s (actsOn s log) (x.view s) := by
  induction h with
  | start => exact kept_nil s
  | @move log more x y h hm ih =>
    have hlog : actsOn s (log ++ more) = actsOn s log ++ actsOn s more := List.filterMap_append
    rw [hlog] at ho ⊢
    have htickets := (Traffic.sound_reached h.reached).conserves.tickets
    exact (ih ho.of_append).move ho (hm.view h.isOpen htickets s)

end Course

/-! ### Answers -/

lemma Kept.polled (h : Kept s acts (x.view s)) (hopen : x.cache.closed = false) {t : Ticket}
    {seen : Promise α} {attached : Bool} (hc : x.cache.call? t = some (.wait s seen attached))
    (branch : Branch) : (x.cache.poll t branch).2 = (standing acts).due.map (answerOf s) := by
  obtain ⟨rfl, hseen⟩ : attached = true ∧ (x.view s).entry.map (·.promise) = some seen :=
    h.waits _ (mem_waits hc)
  rw [h.entry] at hseen
  unfold poll
  rw [hc]
  cases hs : seen.isSettled with
  | true =>
    obtain ⟨value, hdue, rfl⟩ := Standing.due_of_isSettled hseen hs
    simp [hopen, hs, hdue, delivery_settled]
  | false =>
    have hnone : (standing acts).due = none := by
      cases hdue : (standing acts).due with
      | none => rfl
      | some value =>
        rw [Standing.entry_of_due hdue] at hseen
        rw [← Option.some.inj hseen] at hs
        cases (isSettled_settled value).symm.trans hs
    simp [hopen, hs, hnone]

/-- Nothing is due after an answer until the slot is settled again. -/
lemma due_eq_none_of_answered {before after : List (Act α)} {answer : Answer α}
    (hafter : ∀ value, .settled value ∉ after) :
    (standing (before ++ .answered answer :: after)).due = none := by
  have hrun (st : Standing α) (hdue : st.due = none) : (after.foldl Standing.next st).due = none := by
    induction after generalizing st with
    | nil => exact hdue
    | cons act after ih =>
      refine ih (fun value hv => hafter value (List.mem_cons_of_mem _ hv)) _ ?_
      cases act with
      | asked => exact hdue
      | gaveUp => exact hdue
      | settled value => exact absurd List.mem_cons_self (hafter value)
      | answered answer => rfl
  rw [standing, List.foldl_append]
  exact hrun _ rfl

/-- A slot that was never used. -/
def View.unused : View α := ⟨none, [], []⟩

/-- What the waits for a slot are answered, and what is left of it. -/
structure DeliversOnce (s : Slot) (acts : List (Act α)) (x : Traffic α) : Prop where
  /-- answers are the settlements one after another, but for the last one while it is due -/
  delivered : answers acts ++ ((standing acts).due.map (answerOf s)).toList
    = (settlements acts).map (answerOf s)
  /-- one who waits is answered with what is due, and if nothing is due then not at all -/
  polled : ∀ t seen attached branch, x.cache.call? t = some (.wait s seen attached) →
    (x.cache.poll t branch).2 = (standing acts).due.map (answerOf s)
  /-- one who has seen a settlement is answered with what is due -/
  left : ∀ seen, (s, seen) ∈ x.leaving →
    (standing acts).due.map (answerOf s) = some (delivery s seen)
  shown : x.cache.entries.get? s = (standing acts).entry
  /-- with the answer everything about the slot is gone -/
  unused : ∀ before answer, acts = before ++ [.answered answer] → x.view s = .unused
  /-- and who waits then, waits for a new settlement -/
  pends : ∀ before answer after, acts = before ++ .answered answer :: after →
    (∀ value, .settled value ∉ after) → ∀ t seen attached branch,
      x.cache.call? t = some (.wait s seen attached) → (x.cache.poll t branch).2 = none

lemma Course.deliversOnce (h : Course capacity log x) (ho : Orderly (actsOn s log)) :
    DeliversOnce s (actsOn s log) x := by
  have hkept := h.kept ho
  refine ⟨hkept.delivered, fun t seen attached branch hc => hkept.polled h.isOpen hc branch,
    fun seen hl => ?_, hkept.entry, fun before answer hacts => ?_,
    fun before answer after hacts hafter t seen attached branch hc => ?_⟩
  · have hmem : seen ∈ (x.view s).leaving := List.mem_filterMap.2 ⟨_, hl, if_pos rfl⟩
    obtain ⟨value, hdue, rfl⟩ := hkept.leaving seen hmem
    rw [hdue, delivery_settled]
    rfl
  · have hstanding : standing (actsOn s log) = ⟨none, false⟩ := by
      rw [hacts, standing_append]
      rfl
    have hentry : (x.view s).entry = none := by
      rw [hkept.entry, hstanding]
      rfl
    have hwaits := hkept.waits_eq_nil hentry
    have hleaving := hkept.leaving_eq_nil (congrArg Standing.due hstanding)
    show (⟨(x.view s).entry, (x.view s).waits, (x.view s).leaving⟩ : View α) = _
    rw [hentry, hwaits, hleaving]
    rfl
  · rw [hkept.polled h.isOpen hc, hacts, due_eq_none_of_answered hafter]
    rfl

/-! ### Two courses -/

/-- The same settlements, and as many answers. Where nothing is due it matters as well whether
somebody has begun to wait since the last answer, and nothing else does. -/
structure Alike (acts acts' : List (Act α)) : Prop where
  settlements : settlements acts = settlements acts'
  answers : (answers acts).length = (answers acts').length
  awaited : (standing acts).due = none → (standing acts).awaited = (standing acts').awaited

lemma answerOf_injective (s : Slot) : Function.Injective (answerOf s : Option α → Answer α) := by
  intro a b h
  cases a <;> cases b <;> cases h <;> rfl

lemma Kept.alike {acts' : List (Act α)} (h : Kept s acts v) (h' : Kept s acts' w)
    (ha : Alike acts acts') : answers acts = answers acts' ∧ v.entry = w.entry := by
  have hdelivered := h.delivered.trans ((congrArg _ ha.settlements).trans h'.delivered.symm)
  obtain ⟨hanswers, hlast⟩ := List.append_inj hdelivered ha.answers
  have hlast : (standing acts).due.map (answerOf s) = (standing acts').due.map (answerOf s) := by
    simpa using congrArg List.head? hlast
  have hdue := Option.map_injective (answerOf_injective s) hlast
  refine ⟨hanswers, ?_⟩
  rw [h.entry, h'.entry]
  exact Standing.entry_congr hdue ha.awaited

/-- Caches that differ in the calls under way at most, and not in what has come of the others. -/
structure Settles (c d : Cache α) : Prop where
  entries : c.entries = d.entries
  shares : c.free + c.inTransit = d.free + d.inTransit
  /-- without calls under way they differ in the next ticket at most -/
  idle : c.calls = [] → d.calls = [] → { c with nextTicket := d.nextTicket } = d

lemma Course.settles (h : Course capacity log x) (h' : Course capacity log' y)
    (hs : ∀ s, x.cache.entries.get? s = y.cache.entries.get? s) :
    Settles x.cache y.cache := by
  have hentries : x.cache.entries = y.cache.entries := Ledger.ext_get? hs
  have hsize : x.cache.size = y.cache.size := by rw [size, size, hentries]
  have hshares := (Traffic.sound_reached h.reached).conserves.shares
  have hshares' := (Traffic.sound_reached h'.reached).conserves.shares
  have hfree : x.cache.free + x.cache.inTransit = y.cache.free + y.cache.inTransit := by omega
  refine ⟨hentries, hfree, fun hx hy => ?_⟩
  rw [inTransit, inTransit, hx, hy] at hfree
  have hopen := h.isOpen.trans h'.isOpen.symm
  obtain ⟨⟨entries, free, calls, _, closed⟩, _, _⟩ := x
  obtain ⟨⟨entries', free', calls', _, closed'⟩, _, _⟩ := y
  cases hentries
  cases hx
  cases hy
  cases hopen
  cases (Nat.add_right_cancel hfree : free = free')
  rfl

/-- **Each settlement is delivered once, whatever the timing.** In whatever way the operations of
any number of tasks follow on one another, a slot with one waiter at a time that is not settled
twice between answers has its settlements delivered one after another. Two courses in which the
slots are settled alike and answered as often give the same answers and end in the same cache,
however waits, settlements and slots are interleaved. -/
theorem Course.delivers_once (h : Course capacity log x) :
    (∀ s, Orderly (actsOn s log) → DeliversOnce s (actsOn s log) x) ∧
      ∀ log' y, Course capacity log' y →
        (∀ s, Orderly (actsOn s log) → Orderly (actsOn s log') →
          Alike (actsOn s log) (actsOn s log') →
            answers (actsOn s log) = answers (actsOn s log') ∧
              x.cache.entries.get? s = y.cache.entries.get? s) ∧
          ((∀ s, Orderly (actsOn s log) ∧ Orderly (actsOn s log') ∧
            Alike (actsOn s log) (actsOn s log')) → Settles x.cache y.cache) := by
  refine ⟨fun s ho => h.deliversOnce ho, fun log' y h' => ?_⟩
  have hslot (s : Slot) (ho : Orderly (actsOn s log)) (ho' : Orderly (actsOn s log'))
      (ha : Alike (actsOn s log) (actsOn s log')) : answers (actsOn s log) = answers (actsOn s log')
        ∧ x.cache.entries.get? s = y.cache.entries.get? s := (h.kept ho).alike (h'.kept ho') ha
  exact ⟨hslot, fun hall => h.settles h' fun s => (hslot s (hall s).1 (hall s).2.1 (hall s).2.2).2⟩

/-! ### Waiting first and settling first -/

instance : DecidablePred (Orderly (α := α)) := fun acts =>
  decidable_of_iff (∀ before ∈ acts.inits, asks before ≤ ends before + 1 ∧
    (settlements before).length ≤ (answers before).length + 1) <| by
      simp only [Orderly, List.mem_inits]

/-- Two slots, waited for before they are settled. -/
def waitedFirst : List (Slot × Act Nat) :=
  [(7, .asked), (9, .asked), (7, .settled (some 5)), (9, .settled none),
    (7, .answered (.taken 5)), (9, .answered (.refused (.unavailable 9)))]

/-- The same slots, settled first and answered the other way round. -/
def settledFirst : List (Slot × Act Nat) :=
  [(9, .settled none), (7, .settled (some 5)), (7, .asked), (9, .asked),
    (9, .answered (.refused (.unavailable 9))), (7, .answered (.taken 5))]

lemma course_waitedFirst : ∃ x : Traffic Nat, Course 1 waitedFirst x ∧ x.cache.calls = [] := by
  have hstart : Course 1 [] (.start 1 : Traffic Nat) := .start
  have hwaiting := (hstart.move (.beginWait 7)).move (.beginWait 9)
  have hpublished := (hwaiting.move (.beginInsert 7 5)).move (.poll (t := 2) rfl .result)
  have hmarked := hpublished.move (.markUnavailable 9)
  have htaken := hmarked.move (.poll (t := 0) rfl .result)
  have hrefused := htaken.move (.poll (t := 1) rfl .closing)
  exact ⟨_, hrefused, rfl⟩

/-- The wait for the first slot sees its value and removes it after the other wait. -/
lemma course_settledFirst : ∃ x : Traffic Nat, Course 1 settledFirst x ∧ x.cache.calls = [] := by
  have hstart : Course 1 [] (.start 1 : Traffic Nat) := .start
  have hmarked := hstart.move (.markUnavailable 9)
  have hpublished := (hmarked.move (.beginInsert 7 5)).move (.poll (t := 0) rfl .result)
  have hseen := (hpublished.move (.beginWait 7)).move (.see (t := 1) rfl rfl)
  have hrefused := (hseen.move (.beginWait 9)).move (.poll (t := 2) rfl .result)
  have hleft := hrefused.move (.leave (List.nil_append _).symm)
  exact ⟨_, hleft, rfl⟩

lemma alike_waitedFirst (s : Slot) : Orderly (actsOn s waitedFirst) ∧
    Orderly (actsOn s settledFirst) ∧ Alike (actsOn s waitedFirst) (actsOn s settledFirst) := by
  by_cases h7 : s = 7
  · subst h7
    exact ⟨by decide, by decide, rfl, rfl, fun _ => rfl⟩
  · by_cases h9 : s = 9
    · subst h9
      exact ⟨by decide, by decide, rfl, rfl, fun _ => rfl⟩
    · have hfirst : actsOn s waitedFirst = [] := by
        simp [actsOn, waitedFirst, Ne.symm h7, Ne.symm h9]
      have hlast : actsOn s settledFirst = [] := by
        simp [actsOn, settledFirst, Ne.symm h7, Ne.symm h9]
      rw [hfirst, hlast]
      exact ⟨by decide, by decide, rfl, rfl, fun _ => rfl⟩

/-- Both courses deliver both settlements and leave the cache as it was at the start. -/
theorem waitedFirst_delivers : ∃ x y : Traffic Nat, Course 1 waitedFirst x ∧
    Course 1 settledFirst y ∧ DeliversOnce 7 (actsOn 7 waitedFirst) x ∧
      answers (actsOn 7 waitedFirst) = [.taken 5] ∧
        answers (actsOn 7 settledFirst) = [.taken 5] ∧
          { x.cache with nextTicket := y.cache.nextTicket } = y.cache := by
  obtain ⟨x, hx, hxcalls⟩ := course_waitedFirst
  obtain ⟨y, hy, hycalls⟩ := course_settledFirst
  obtain ⟨honce, htwo⟩ := hx.delivers_once
  exact ⟨x, y, hx, hy, honce 7 (alike_waitedFirst 7).1, rfl, rfl,
    ((htwo _ y hy).2 alike_waitedFirst).idle hxcalls hycalls⟩

end EpochRewards.Cache
