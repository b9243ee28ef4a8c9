import EpochRewards.Proofs.Deliveries
import Mathlib.Data.List.Induction
import Mathlib.Logic.Relation

/-!
Assembling against any supply.

A supplier settles every epoch of a download once, by publishing a snapshot or by marking it
unavailable, in whatever order and between whichever moves of the assembling party and of the
receiver. Which windows are handed out depends on what was settled alone.
-/

namespace EpochRewards

/-- A download whose cache is supplied from outside. -/
structure Supply where
  download : Download
  /-- the snapshot that is being inserted -/
  coming : Option (Epoch × Snapshot)
  /-- what was settled, the latest last -/
  settled : Outcomes
  /-- the windows that were received, the latest last -/
  received : List EpochTask

namespace Supply

def start (o : Order) (capacity : Nat) (requests : Requests) : Supply :=
  ⟨.start o.range capacity requests, none, [], []⟩

/-- An epoch of the download that has not been settled. -/
def Open (o : Order) (x : Supply) (e : Epoch) : Prop :=
  e ∈ o.downloads ∧ e ∉ x.settled.map (·.1)

/-- A move of the supplier, of the assembling party or of the receiver. -/
inductive Step (o : Order) : Supply → Supply → Prop
  | insert {x : Supply} (e : Epoch) (s : Snapshot) (hi : x.download.inserting = none)
    (he : x.Open o e) :
    Step o x { x with
      coming := some (e, s)
      download := { x.download with
        cache := (x.download.cache.beginInsert (o.network.terminalSlot e) s).1
        inserting := some (x.download.cache.beginInsert (o.network.terminalSlot e) s).2 } }
  | publish {x : Supply} {e : Epoch} {s : Snapshot} {t : Cache.Ticket} {branch : Cache.Branch}
    {cache : Cache Snapshot} (hc : x.coming = some (e, s)) (ht : x.download.inserting = some t)
    (hp : x.download.cache.poll t branch = (cache, some .inserted)) :
    Step o x { x with
      coming := none
      settled := x.settled ++ [(e, some s)]
      download := { x.download with cache, inserting := none } }
  | markUnavailable {x : Supply} (e : Epoch) (hi : x.download.inserting = none) (he : x.Open o e) :
    Step o x { x with
      settled := x.settled ++ [(e, none)]
      download := { x.download with
        cache := x.download.cache.markUnavailable (o.network.terminalSlot e) } }
  | assemble {x : Supply} {branch : Cache.Branch} {d : Download}
    (h : x.download.assemble o branch = some d) : Step o x { x with download := d }
  | receive {x : Supply} {task : EpochTask} {d : Download}
    (h : x.download.receive? = some (task, d)) :
    Step o x { x with
      download := d
      received := x.received ++ [task] }

/-- Any number of moves in any order. -/
def Steps (o : Order) : Supply → Supply → Prop := Relation.ReflTransGen (Step o)

/-- The supplies that moves can lead to. -/
def Reached (o : Order) (capacity : Nat) (requests : Requests) (x : Supply) : Prop :=
  Steps o (start o capacity requests) x

/-- The assembling party has ended and its queue is drained. -/
def Returned (x : Supply) : Prop := x.download.assembling = false ∧ x.download.queue = []

/-- What was settled and what the supplier is about to settle. -/
def known (x : Supply) : Outcomes := x.settled ++ x.coming.toList.map fun y => (y.1, some y.2)

/-- A supplier settles every epoch of the download once. -/
structure Tidy (o : Order) (x : Supply) : Prop where
  once : (x.known.map (·.1)).Nodup
  within : ∀ e ∈ x.known.map (·.1), e ∈ o.downloads
  inserting : x.download.inserting.isSome = x.coming.isSome

/-- A supply on the way to hand out `tasks` and to lose the windows of `lost`. -/
structure Underway (o : Order) (capacity : Nat) (f : Order.Outcome) (tasks : List EpochTask)
    (lost : List Epoch) (x : Supply) : Prop where
  owes : ∃ rest, tasks = x.received ++ rest ∧ x.download.Owes o f rest lost
  delivering : x.download.assembling = true →
    x.download.Delivering o capacity x.settled x.coming

variable {o : Order} {capacity : Nat} {requests : Requests} {f : Order.Outcome}
  {tasks : List EpochTask} {lost : List Epoch} {x y : Supply}

/-! ### What is settled -/

lemma Tidy.coming_none (h : x.Tidy o) (hi : x.download.inserting = none) : x.coming = none := by
  have hsome := h.inserting
  rw [hi] at hsome
  exact Option.isNone_iff_eq_none.1 (by simpa using hsome.symm)

lemma known_of_idle (h : x.coming = none) : x.known = x.settled := by
  rw [known, h]
  exact List.append_nil _

lemma tidy_start (o : Order) (capacity : Nat) (requests : Requests) :
    (start o capacity requests).Tidy o := ⟨List.nodup_nil, nofun, rfl⟩

/-- One more epoch can be settled as long as it is open. -/
lemma Open.append {e : Epoch} (h : x.Tidy o) (he : x.Open o e) (s : Option Snapshot)
    (hc : x.coming = none) : ((x.settled ++ [(e, s)]).map (·.1)).Nodup ∧
      ∀ u ∈ (x.settled ++ [(e, s)]).map (·.1), u ∈ o.downloads := by
  have honce := h.once
  have hwithin := h.within
  rw [known_of_idle hc] at honce hwithin
  rw [List.map_append]
  constructor
  · refine List.nodup_append.2 ⟨honce, List.nodup_singleton e, fun u hu v hv huv => he.2 ?_⟩
    have hve : v = e := List.mem_singleton.1 hv
    rwa [← hve, ← huv]
  · intro u hu
    rcases List.mem_append.1 hu with hu | hu
    · exact hwithin u hu
    · have hue : u = e := List.mem_singleton.1 hu
      rw [hue]
      exact he.1

lemma tidy_step (h : x.Tidy o) (hs : Step o x y) : y.Tidy o ∧ x.known <+: y.known := by
  cases hs with
  | insert e s hi he =>
    have hc := h.coming_none hi
    obtain ⟨honce, hwithin⟩ := he.append h (some s) hc
    refine ⟨⟨honce, hwithin, rfl⟩, ?_⟩
    rw [known_of_idle hc]
    exact List.prefix_append _ _
  | @publish e s t branch cache hc ht hp =>
    have hsame : x.settled ++ [(e, some s)] ++ [] = x.known := by
      rw [known, hc, List.append_nil, Option.toList_some, List.map_singleton]
    refine ⟨⟨?_, ?_, rfl⟩, ?_⟩
    · show ((x.settled ++ [(e, some s)] ++ []).map Prod.fst).Nodup
      rw [hsame]
      exact h.once
    · show ∀ u ∈ (x.settled ++ [(e, some s)] ++ []).map Prod.fst, u ∈ o.downloads
      rw [hsame]
      exact h.within
    · show x.known <+: x.settled ++ [(e, some s)] ++ []
      exact ⟨[], (List.append_nil _).trans hsame.symm⟩
  | markUnavailable e hi he =>
    have hc := h.coming_none hi
    obtain ⟨honce, hwithin⟩ := he.append h none hc
    have hknown : ({ x with
        settled := x.settled ++ [(e, none)]
        download := { x.download with
          cache := x.download.cache.markUnavailable (o.network.terminalSlot e) } } : Supply).known
        = x.settled ++ [(e, none)] := known_of_idle hc
    refine ⟨⟨?_, ?_, h.inserting⟩, ?_⟩
    · rw [hknown]
      exact honce
    · rw [hknown]
      exact hwithin
    · rw [hknown, known_of_idle hc]
      exact List.prefix_append _ _
  | assemble ha =>
    refine ⟨⟨h.once, h.within, ?_⟩, List.prefix_refl _⟩
    rw [(Download.assemble_keeps ha).2.2.1]
    exact h.inserting
  | receive hr =>
    obtain ⟨queue, rfl⟩ := Download.receive_keeps hr
    exact ⟨⟨h.once, h.within, h.inserting⟩, List.prefix_refl _⟩

lemma tidy_steps (h : x.Tidy o) (hs : Steps o x y) : y.Tidy o ∧ x.known <+: y.known := by
  induction hs with
  | refl => exact ⟨h, List.prefix_refl _⟩
  | tail _ hs ih =>
    obtain ⟨htidy, hprefix⟩ := ih
    obtain ⟨htidy', hprefix'⟩ := tidy_step htidy hs
    exact ⟨htidy', hprefix.trans hprefix'⟩

/-! ### Moves -/

section Moves

variable (hd : (o.downloads.map o.network.terminalSlot).Nodup)
include hd

/-- No move changes what will have been handed out and lost. -/
lemma underway_step (ht : x.Tidy o) (h : Underway o capacity f tasks lost x) (hs : Step o x y)
    (hf : ∀ z ∈ y.known, f z.1 = z.2) : Underway o capacity f tasks lost y := by
  have hunshared : o.Unshared f := Order.unshared_of_nodup hd
  obtain ⟨rest, htasks, howes⟩ := h.owes
  cases hs with
  | insert e s hi he =>
    have hfe : f e = some s := hf (e, some s) (List.mem_append_right _ List.mem_cons_self)
    have hagrees := Order.agrees_ready hunshared he.1 hfe
    have hv := howes.underway.vouches
    rw [hi] at hv
    refine ⟨⟨rest, htasks, howes.supplied _ _ _ _ fun ha => ?_⟩, fun ha => ?_⟩
    · exact Cache.vouches_beginInsert (hv ha) hagrees
    · have hdel := h.delivering ha
      rw [ht.coming_none hi] at hdel
      exact hdel.begin hi he.1 he.2 x.download.toFetch x.download.requests
  | @publish e s t branch cache hc hi hp =>
    have hv := howes.underway.vouches
    rw [hi] at hv
    refine ⟨⟨rest, htasks, howes.supplied _ _ _ _ fun ha => ?_⟩, fun ha => ?_⟩
    · exact (Cache.vouches_poll_insertion (hv ha) hp).2
    · have hdel := h.delivering ha
      rw [hc] at hdel
      exact (hdel.publish hd hi hp).2
  | markUnavailable e hi he =>
    have hc := ht.coming_none hi
    have hfe : f e = none :=
      hf (e, none) (List.mem_append_left _ (List.mem_append_right _ List.mem_cons_self))
    have hagrees := Order.agrees_unavailable hunshared he.1 hfe
    refine ⟨⟨rest, htasks, howes.supplied _ _ _ _ fun ha => ?_⟩, fun ha => ?_⟩
    · exact Cache.vouches_markUnavailable (howes.underway.vouches ha) hagrees
    · have hdel := (h.delivering ha).unavailable hd hi he.1 he.2 x.download.toFetch
        x.download.requests
      rw [← hc] at hdel
      exact hdel
  | assemble ha =>
    refine ⟨⟨rest, htasks, Download.assemble_owes howes ha⟩, fun hopen => ?_⟩
    have hdel := h.delivering ((Download.assemble_keeps ha).2.2.2.2 hopen)
    exact hdel.assemble hd howes.underway.received hopen ha
  | receive hr =>
    obtain ⟨rest, rfl, howes⟩ := Download.receive_owes howes hr
    obtain ⟨queue, rfl⟩ := Download.receive_keeps hr
    refine ⟨⟨rest, ?_, howes⟩, fun ha => (h.delivering ha).congr rfl rfl rfl rfl⟩
    rw [htasks, List.append_assoc]
    rfl

lemma underway_reached (hr : Reached o capacity requests x) (hf : ∀ z ∈ x.known, f z.1 = z.2) :
    Underway o capacity f
      (slideAll o.range (.start o.range) (o.downloads.map fun e => (e, f e))).1
      (slideAll o.range (.start o.range) (o.downloads.map fun e => (e, f e))).2 x := by
  induction hr with
  | refl =>
    exact ⟨⟨_, rfl, Download.owes_start capacity requests f⟩,
      fun _ => Download.delivering_start capacity requests⟩
  | tail hr hs ih =>
    obtain ⟨htidy, -⟩ := tidy_steps (tidy_start o capacity requests) hr
    have hknown := (tidy_step htidy hs).2
    exact underway_step hd htidy (ih fun z hz => hf z (hknown.subset hz)) hs hf

end Moves

/-! ### Ends -/

/-- Once every epoch is settled there is nothing more to settle. -/
lemma settled_steps (hx : x.Tidy o) (hall : ∀ e ∈ o.downloads, e ∈ x.settled.map (·.1))
    (hs : Steps o x y) : y.known = x.settled := by
  obtain ⟨hy, hprefix⟩ := tidy_steps hx hs
  obtain ⟨more, hmore⟩ := (List.prefix_append x.settled _).trans hprefix
  have honce := hy.once
  rw [← hmore, List.map_append] at honce
  have hnone : more = [] := by
    cases more with
    | nil => rfl
    | cons z more =>
      have hz : z.1 ∈ o.downloads := by
        refine hy.within z.1 (List.mem_map.2 ⟨z, ?_, rfl⟩)
        rw [← hmore]
        exact List.mem_append_right _ List.mem_cons_self
      exact absurd rfl ((List.nodup_append.1 honce).2.2 z.1 (hall z.1 hz) z.1 List.mem_cons_self)
  rw [← hmore, hnone, List.append_nil]

/-- With everything settled the assembling party comes to its end. -/
lemma returns_of_settled (hd : (o.downloads.map o.network.terminalSlot).Nodup)
    (hr : Reached o capacity requests x)
    (hall : ∀ e ∈ o.downloads, e ∈ x.settled.map (·.1)) : ∃ y, Steps o x y ∧ y.Returned := by
  -- Every move of the assembling party or of the receiver leaves less to be done.
  induction hn : x.download.remaining using Nat.strong_induction_on generalizing x with
  | _ n ih =>
    subst hn
    have go (y : Supply) (hs : Step o x y) (hsettled : y.settled = x.settled)
        (hlt : y.download.remaining < x.download.remaining) : ∃ z, Steps o x z ∧ z.Returned := by
      obtain ⟨z, hz, hret⟩ := ih _ hlt (hr.tail hs) (hsettled ▸ hall) rfl
      exact ⟨z, .head hs hz, hret⟩
    cases hq : x.download.receive? with
    | some received =>
      obtain ⟨task, d⟩ := received
      exact go _ (.receive hq) rfl (Download.remaining_receive hq)
    | none =>
      have hqueue : x.download.queue = [] := by
        unfold Download.receive? at hq
        split at hq
        · assumption
        · cases hq
      cases hm : x.download.assemble o .closing with
      | some d => exact go _ (.assemble hm) rfl (Download.remaining_assemble hm)
      | none =>
        have htidy := (tidy_steps (tidy_start o capacity requests) hr).1
        have hunder := underway_reached hd hr fun z hz => Outcomes.outcome_of_mem htidy.once hz
        obtain ⟨rest, -, howes⟩ := hunder.owes
        exact ⟨x, .refl, Download.Delivering.returns hd hunder.delivering hall
          howes.underway.received hqueue hm, hqueue⟩

lemma mem_downloads_back {e n : Nat} (he : e ∈ o.range.windowEpochs.toList)
    (hn : n ≤ windowReach) : e - n ∈ o.downloads := by
  obtain ⟨hfirst, hlast⟩ := EpochSpan.mem_toList.1 he
  refine EpochSpan.mem_toList.2 ⟨?_, Nat.le_trans (Nat.sub_le _ _) hlast⟩
  exact Nat.le_trans (Nat.sub_le_sub_right hfirst _) (Nat.sub_le_sub_left hn e)

/-- The windows over outcomes that are listed in the order of the epochs. -/
lemma windowAt_downloads {xs : Outcomes} {e : Epoch} (he : e ∈ o.range.windowEpochs.toList) :
    Outcomes.windowAt (o.downloads.map fun u => (u, xs.outcome u)) e = xs.windowAt e := by
  have hback (n : Nat) (hn : n ≤ windowReach) :
      Outcomes.back (o.downloads.map fun u => (u, xs.outcome u)) e n = xs.back e n := by
    unfold Outcomes.back
    split
    · rfl
    · rw [List.lookup_graph _ (mem_downloads_back he hn)]
      rfl
  rw [Outcomes.windowAt, Outcomes.windowAt, hback 2 (Nat.le_refl 2), hback 1 (Nat.le_succ 1),
    hback 0 (Nat.zero_le 2)]

lemma back_eq_none_iff {xs : Outcomes} (hn : (xs.map (·.1)).Nodup)
    (hall : ∀ e ∈ o.downloads, e ∈ xs.map (·.1)) {e n : Nat}
    (he : e ∈ o.range.windowEpochs.toList) (hle : n ≤ windowReach) :
    xs.back e n = none ↔ n ≤ e ∧ (e - n, none) ∈ xs := by
  unfold Outcomes.back
  split
  · next hlt =>
    refine ⟨nofun, fun h => ?_⟩
    exact absurd h.1 (Nat.not_le.2 hlt)
  · next hlt =>
    obtain ⟨⟨u, x⟩, hx, hu⟩ := List.mem_map.1 (hall _ (mem_downloads_back he hle))
    have hue : u = e - n := hu
    subst hue
    rw [Cache.lookup_of_mem hn hx]
    constructor
    · intro hjoin
      have hxn : x = none := hjoin
      exact ⟨Nat.le_of_not_lt hlt, hxn ▸ hx⟩
    · rintro ⟨-, hm⟩
      have hsame := Cache.lookup_of_mem hn hm
      rw [Cache.lookup_of_mem hn hx] at hsame
      exact Option.some.inj hsame

/-- A window is incomplete if and only if one of its epochs has no snapshot. -/
lemma windowAt_eq_none_iff {xs : Outcomes} (hn : (xs.map (·.1)).Nodup)
    (hall : ∀ e ∈ o.downloads, e ∈ xs.map (·.1)) {e : Epoch}
    (he : e ∈ o.range.windowEpochs.toList) :
    xs.windowAt e = none ↔ ∃ u, (u, none) ∈ xs ∧ u ≤ e ∧ e ≤ u + windowReach := by
  have harith (n m : Nat) : m ≤ n ∧ n ≤ m + 2 ↔
      m = n - 2 ∧ 2 ≤ n ∨ m = n - 1 ∧ 1 ≤ n ∨ m = n - 0 ∧ 0 ≤ n := by omega
  have hback (n : Nat) (hle : n ≤ windowReach) := back_eq_none_iff hn hall he hle
  have hwindow : xs.windowAt e = none ↔
      xs.back e 2 = none ∨ xs.back e 1 = none ∨ xs.back e 0 = none := by
    unfold Outcomes.windowAt
    cases xs.back e 2 <;> cases xs.back e 1 <;> cases xs.back e 0 <;> simp
  rw [hwindow, hback 2 (Nat.le_refl 2), hback 1 (Nat.le_succ 1), hback 0 (Nat.zero_le 2)]
  constructor
  · rintro (⟨hle, hm⟩ | ⟨hle, hm⟩ | ⟨hle, hm⟩)
    · exact ⟨e - 2, hm, (harith e _).2 (.inl ⟨rfl, hle⟩)⟩
    · exact ⟨e - 1, hm, (harith e _).2 (.inr (.inl ⟨rfl, hle⟩))⟩
    · exact ⟨e - 0, hm, (harith e _).2 (.inr (.inr ⟨rfl, hle⟩))⟩
  · rintro ⟨u, hm, hspan⟩
    rcases (harith e u).1 hspan with ⟨rfl, hle⟩ | ⟨rfl, hle⟩ | ⟨rfl, hle⟩
    · exact .inl ⟨hle, hm⟩
    · exact .inr (.inl ⟨hle, hm⟩)
    · exact .inr (.inr ⟨hle, hm⟩)

/-- A supplier with a share for every snapshot can settle epochs in any order and to anything. -/
theorem reached_settled (hd : (o.downloads.map o.network.terminalSlot).Nodup) {xs : Outcomes}
    (hn : (xs.map (·.1)).Nodup) (hw : ∀ e ∈ xs.map (·.1), e ∈ o.downloads)
    (hcap : xs.countP (·.2.isSome) ≤ capacity) :
    ∃ x, Reached o capacity requests x ∧ x.settled = xs ∧ x.coming = none ∧
      x.download.assembling = true := by
  induction xs using List.reverseRecOn with
  | nil => exact ⟨_, .refl, rfl, rfl, rfl⟩
  | append_singleton xs z ih =>
    obtain ⟨e, out⟩ := z
    rw [List.map_append, List.nodup_append] at hn
    rw [List.countP_append] at hcap
    rw [List.map_append] at hw
    obtain ⟨x, hr, rfl, hc, ha⟩ := ih hn.1
      (fun u hu => hw u (List.mem_append_left _ hu)) (Nat.le_of_add_right_le hcap)
    have htidy := (tidy_steps (tidy_start o capacity requests) hr).1
    have hunder := underway_reached hd hr fun u hu => Outcomes.outcome_of_mem htidy.once hu
    have hdel := hunder.delivering ha
    have hi : x.download.inserting = none := by
      have hsame := hdel.inserting
      rw [hc] at hsame
      exact Option.isNone_iff_eq_none.1 (by simpa using hsame)
    have hopen : x.Open o e := by
      refine ⟨hw e (List.mem_append_right _ List.mem_cons_self), fun he => ?_⟩
      exact hn.2.2 e he e List.mem_cons_self rfl
    cases out with
    | none => exact ⟨_, hr.tail (.markUnavailable e hi hopen), rfl, hc, ha⟩
    | some s =>
      have hinsert := Step.insert (o := o) e s hi hopen
      rw [hc] at hdel
      have hbegun := hdel.begin (s := s) hi hopen.1 hopen.2 x.download.toFetch x.download.requests
      have hshare : (x.download.ready x.settled).countP (·.2.isSome) < capacity := by
        have htaken : (x.download.ready x.settled).countP (·.2.isSome)
            ≤ x.settled.countP (·.2.isSome) := List.filter_sublist.countP_le
        have hone : [(e, some s)].countP (fun y : Epoch × Option Snapshot => y.2.isSome) = 1 := rfl
        omega
      obtain ⟨cache, hanswer⟩ := hbegun.inserted hd rfl hshare .result
      exact ⟨_, (hr.tail hinsert).tail (.publish rfl rfl hanswer), rfl, rfl, ha⟩

/-- **The windows that are handed out are the complete ones.** Once every epoch of a download is
settled, whichever of them are unavailable and whatever the order was, the assembling party comes
to its end. It has then handed out, in the order of the epochs, one window for each epoch in which
one can end whose three snapshots are all there, with these very snapshots, and reports the other
ones of these epochs: those with an unavailable snapshot in their window. -/
theorem Reached.windows_handedOut (hr : Reached o capacity requests x) (hfit : o.range.Fits o.network)
    (hall : ∀ e ∈ o.downloads, e ∈ x.settled.map (·.1)) :
    (∃ y, Steps o x y ∧ y.Returned) ∧ ∀ y, Steps o x y → y.Returned →
      o.range.windowEpochs.toList.Pairwise (· < ·) ∧
        y.received = o.range.windowEpochs.toList.filterMap
          (fun e => (x.settled.windowAt e).map Window.task) ∧
        y.download.abandoned = o.range.windowEpochs.toList.filter
          (fun e => (x.settled.windowAt e).isNone) ∧
        ∀ e, e ∈ y.download.abandoned ↔ e ∈ o.range.windowEpochs.toList ∧
          ∃ u, (u, none) ∈ x.settled ∧ u ≤ e ∧ e ≤ u + windowReach := by
  have hd : (o.downloads.map o.network.terminalSlot).Nodup := hfit.nodup_lastSlots
  have htidy := (tidy_steps (tidy_start o capacity requests) hr).1
  have hnodup : (x.settled.map (·.1)).Nodup := by
    have honce := htidy.once
    rw [known, List.map_append] at honce
    exact (List.nodup_append.1 honce).1
  refine ⟨returns_of_settled hd hr hall, fun y hs hy => ?_⟩
  have hknown := settled_steps htidy hall hs
  have hunder := underway_reached (f := x.settled.outcome) hd (hr.trans hs) fun z hz =>
    Outcomes.outcome_of_mem hnodup (hknown ▸ hz)
  have hepochs : (o.downloads.map fun e => (e, x.settled.outcome e)).map (·.1)
      = o.range.downloadEpochs.toList := by
    rw [List.map_map]
    exact List.map_id _
  rw [Outcomes.slideAll_start hepochs] at hunder
  obtain ⟨rest, htasks, howes⟩ := hunder.owes
  obtain ⟨hrest, hlost⟩ := howes.ended hy.1
  rw [hrest, hy.2, List.append_nil] at htasks
  have hwindows : ∀ e ∈ o.range.windowEpochs.toList,
      Outcomes.windowAt (o.downloads.map fun u => (u, x.settled.outcome u)) e
        = x.settled.windowAt e := fun e he => windowAt_downloads he
  have habandoned : y.download.abandoned = o.range.windowEpochs.toList.filter
      fun e => (x.settled.windowAt e).isNone := by
    rw [← hlost]
    exact List.filter_congr fun e he => by rw [hwindows e he]
  refine ⟨EpochSpan.pairwise_toList _, ?_, habandoned, fun e => ?_⟩
  · rw [← htasks]
    exact List.filterMap_congr fun e he => by rw [hwindows e he]
  · rw [habandoned, List.mem_filter, Option.isNone_iff_eq_none]
    exact and_congr_right fun he => windowAt_eq_none_iff hnodup hall he

/-- The first epoch of a chain, from a source that is not asked. -/
def briefOrder : Order where
  network := Network.custom
  range := ⟨0, 31, 0, 0⟩
  retries := 0
  source :=
    { block := fun slot _ => .error (.notFound .block slot)
      report := fun slot _ => .error (.notFound .report slot)
      duties := fun e _ => .error (.notFound .duties e)
      state := fun slot _ => .error (.notFound .state slot) }

def briefSnapshot (e : Epoch) : Snapshot := .placeholder e (Network.custom.terminalSlot e)

/-- Epoch 1 is published before epoch 0, and epoch 2 is not to be had. -/
def briefOutcomes : Outcomes := [(1, some (briefSnapshot 1)), (0, some (briefSnapshot 0)), (2, none)]

/-- The windows that end in the first two epochs are handed out, the third one is lost. -/
theorem brief_windows : briefOrder.range.Fits briefOrder.network ∧
    ∃ x, Reached briefOrder 2 .none x ∧ (∀ e ∈ briefOrder.downloads, e ∈ x.settled.map (·.1)) ∧
      ∃ y, Steps briefOrder x y ∧ y.Returned ∧ y.download.abandoned = [2] ∧
        y.received.map (·.window) = [
          ⟨.placeholder 0 0, .placeholder 0 0, briefSnapshot 0⟩,
          ⟨.placeholder 0 0, briefSnapshot 0, briefSnapshot 1⟩] := by
  have hfit : briefOrder.range.Fits briefOrder.network := ⟨by decide, by decide, by decide⟩
  have hd : (briefOrder.downloads.map briefOrder.network.terminalSlot).Nodup := by decide
  have hsettled : ∃ x, Reached briefOrder 2 .none x ∧ x.settled = briefOutcomes ∧
      x.coming = none ∧ x.download.assembling = true :=
    reached_settled hd (by decide) (by decide) (by decide)
  obtain ⟨x, hr, hx, -, -⟩ := hsettled
  have hall : ∀ e ∈ briefOrder.downloads, e ∈ x.settled.map (·.1) := by
    rw [hx]
    decide
  obtain ⟨⟨y, hs, hy⟩, hwindows⟩ := Reached.windows_handedOut hr hfit hall
  obtain ⟨-, hreceived, habandoned, -⟩ := hwindows y hs hy
  rw [hx] at hreceived habandoned
  refine ⟨hfit, x, hr, hall, y, hs, hy, habandoned, ?_⟩
  rw [hreceived]
  rfl

end Supply

end EpochRewards
