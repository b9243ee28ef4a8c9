import EpochRewards.Download.Epoch
import EpochRewards.Proofs.Windows

/-!
What snapshots are put together from.

A snapshot consists of a state, duties and blocks that the source gave, apart from the stand-ins
for missed blocks. Fetching one may fail but never ends in a fault, as long as the slots of its
epoch can be counted. From a source that does not change it is the same every time.
-/

namespace EpochRewards.Source

variable {α β : Type}

/-! ### Requests in sequence -/

/-- What is fetched has a property, and fetching it does not end in a fault. -/
def Gives (P : α → Prop) (x : Fetching α) : Prop :=
  ∀ q, match x q with
    | .ok a _ => P a
    | .error (.error _) _ => True
    | .error (.fault _) _ => False

namespace Gives

variable {P : α → Prop} {Q : β → Prop} {x : Fetching α}

lemma ok (h : Gives P x) {q q' : Requests} {a : α} (hx : x.run q = .ok a q') : P a := by
  have hq := h q
  have hx : x q = .ok a q' := hx
  rwa [hx] at hq

lemma faultless (h : Gives P x) {q q' : Requests} {f : Fault} :
    x.run q ≠ .error (.fault f) q' := by
  intro hx
  have hq := h q
  have hx : x q = .error (.fault f) q' := hx
  rwa [hx] at hq

lemma pure {a : α} (h : P a) : Gives P (pure a) := fun _ => h

lemma bind {f : α → Fetching β} (h : Gives P x) (hf : ∀ a, P a → Gives Q (f a)) :
    Gives Q (x >>= f) := by
  intro q
  have hq := h q
  have hrun : (x >>= f) q = match x q with
      | .ok a u => f a u
      | .error e u => .error e u := by
    show (x.bind f) q = _
    rw [EStateM.bind]
    cases x q <;> rfl
  rw [hrun]
  cases hx : x q with
  | ok a u =>
    rw [hx] at hq
    exact hf a hq u
  | error e u =>
    rw [hx] at hq
    cases e <;> exact hq

lemma lift {x : Except (Failure FetchError) α} (h : ∀ a, x = .ok a → P a)
    (hf : ∀ f, x ≠ .error (.fault f)) : Gives P (liftM x : Fetching α) := by
  intro q
  cases x with
  | ok a => exact h a rfl
  | error e =>
    cases e with
    | error e => exact trivial
    | fault f => exact absurd rfl (hf f)

end Gives

lemma gives_settle {P : α → Prop} {ask : Asking (Fetched α)}
    (h : ∀ q q' a, ask.run q = (.ok a, q') → P a) : Gives P (settle ask) := by
  intro q
  unfold settle
  cases hr : ask.run q with
  | mk answer u =>
    cases answer with
    | ok a => exact h q u a hr
    | error e => exact trivial

/-! ### Blocks -/

variable {src : Source} {d : Duties} {slot : Slot} {prompt last heeded : Bool}

/-- The block of a slot as the source gave it, or its stand-in. -/
def Serves (src : Source) (slot : Slot) (b : Block) : Prop :=
  (∃ i given, src.block slot i = .ok given ∧ b = { given with report := b.report }) ∨
    ∃ v, b = .missed slot v

/-- Blocks in cells are served, and what is lost is not lost to a fault. -/
def Sure (src : Source) : Slot × Cell → Prop
  | (_, .missing) => True
  | (slot, .got b) => src.Serves slot b
  | (_, .lost e) => ∃ f, e = .error f

lemma gives_attemptBlock :
    Gives (fun cell => src.Sure (slot, cell)) (src.attemptBlock d last slot) := by
  intro q
  unfold attemptBlock
  have hfetch : (src.fetchBlock slot).run q
      = (src.block slot (q.blocks.amount slot),
        { q with blocks := Requests.count q.blocks slot }) := rfl
  rw [hfetch]
  cases hb : src.block slot (q.blocks.amount slot) with
  | ok b => exact .inl ⟨_, b, hb, rfl⟩
  | error e =>
    cases he : e.isNotFound with
    | true =>
      cases hp : d.proposer? slot with
      | some v =>
        simp only [Fetched.found, he, if_true]
        exact .inr ⟨v, rfl⟩
      | none =>
        simp only [Fetched.found, he, if_true]
        exact ⟨_, rfl⟩
    | false =>
      simp only [Fetched.found, he, Bool.false_eq_true, if_false]
      cases last with
      | true => exact ⟨e, rfl⟩
      | false => exact trivial

lemma gives_firstLoss {cells : List (Slot × Cell)} (h : ∀ c ∈ cells, src.Sure c) :
    Gives (fun _ => True) (liftM (firstLoss cells) : Fetching Unit) := by
  refine .lift (fun _ _ => trivial) fun f hf => ?_
  induction cells with
  | nil => cases hf
  | cons c cells ih =>
    obtain ⟨slot, cell⟩ := c
    have hrest := ih fun c hc => h c (List.mem_cons_of_mem _ hc)
    cases cell with
    | missing => cases hf
    | got b => exact hrest hf
    | lost e =>
      obtain ⟨fetchError, rfl⟩ := h _ List.mem_cons_self
      cases hf

/-- A round of attempts leaves the slots as they are. -/
lemma gives_attemptCells {cells : List (Slot × Cell)} (h : ∀ c ∈ cells, src.Sure c) :
    Gives (fun out => out.map (·.1) = cells.map (·.1) ∧ ∀ c ∈ out, src.Sure c)
      (src.attemptCells d prompt last heeded cells) := by
  induction cells generalizing heeded with
  | nil => exact .pure ⟨rfl, nofun⟩
  | cons c cells ih =>
    obtain ⟨slot, cell⟩ := c
    have hcells : ∀ c ∈ cells, src.Sure c := fun c hc => h c (List.mem_cons_of_mem _ hc)
    have put (cell : Cell) (hcell : src.Sure (slot, cell)) (heeded : Bool) :
        Gives (fun out => out.map (·.1) = slot :: cells.map (·.1) ∧ ∀ c ∈ out, src.Sure c) (do
          return (slot, cell) :: (← src.attemptCells d prompt last heeded cells)) := by
      refine (ih hcells).bind fun out hout => .pure ⟨?_, fun c hc => ?_⟩
      · rw [List.map_cons, hout.1]
      · rcases List.mem_cons.1 hc with rfl | hc
        · exact hcell
        · exact hout.2 c hc
    cases cell with
    | missing =>
      -- Only here a loss may end the round, with the failure that the new cell holds.
      refine gives_attemptBlock.bind fun cell hcell => ?_
      have hall : ∀ c ∈ (slot, cell) :: cells, src.Sure c := by
        intro c hc
        rcases List.mem_cons.1 hc with rfl | hc
        · exact hcell
        · exact hcells c hc
      split
      · exact (gives_firstLoss hall).bind fun _ _ => put cell hcell _
      · exact put cell hcell _
    | got b => exact put _ (h _ List.mem_cons_self) _
    | lost e => exact put _ (h _ List.mem_cons_self) _

/-- The blocks in cells are those of the slots. -/
lemma served_of_cells {cells : List (Slot × Cell)} {slots : List Slot}
    (hs : cells.map (·.1) = slots) (h : ∀ c ∈ cells, src.Sure c) :
    ∀ b ∈ cells.filterMap (·.2.block?), ∃ slot ∈ slots, src.Serves slot b := by
  intro b hb
  obtain ⟨⟨slot, cell⟩, hc, hcell⟩ := List.mem_filterMap.1 hb
  cases cell with
  | missing | lost => cases hcell
  | got b' =>
    cases hcell
    exact ⟨slot, hs ▸ List.mem_map.2 ⟨_, hc, rfl⟩, h _ hc⟩

lemma gives_fillCells {n : Nat} {cells : List (Slot × Cell)} {slots : List Slot}
    (hs : cells.map (·.1) = slots) (h : ∀ c ∈ cells, src.Sure c) :
    Gives (fun bs => ∀ b ∈ bs, ∃ slot ∈ slots, src.Serves slot b)
      (src.fillCells d prompt n cells) := by
  induction n generalizing cells with
  | zero =>
    refine (gives_attemptCells h).bind fun out hout => .pure ?_
    exact served_of_cells (hout.1.trans hs) hout.2
  | succ n ih =>
    refine (gives_attemptCells h).bind fun out hout => ?_
    dsimp only
    split
    · exact .pure (served_of_cells (hout.1.trans hs) hout.2)
    · exact ih (hout.1.trans hs) hout.2

/-! ### Snapshots -/

lemma slotsOf_eq {net : Network} {e : Epoch} (h : net.Counts e) : net.slotsOf e
    = .ok (List.range' (net.startSlot e) (net.startSlot (e + 1) - net.startSlot e)) := by
  have hsucc : Word.add e 1 = .ok (e + 1) := by
    have hlt : e + 1 < Word.bound := Nat.lt_succ_of_le h.succ_le
    rw [Word.add, if_pos hlt]
  rw [Network.slotsOf, Network.endSlot, hsucc]
  rfl

/-- What a snapshot of an epoch holds. -/
structure Holds (src : Source) (net : Network) (e : Epoch) (s : Snapshot) : Prop where
  state : ∃ i state, src.state (net.terminalSlot e) i = .ok state ∧
    s = { state with
      blocks := s.blocks
      duties := s.duties }
  duties : ∃ i, src.duties e i = .ok s.duties
  blocks : ∃ slots, net.slotsOf e = .ok slots ∧ ∀ b ∈ s.blocks, ∃ slot ∈ slots, src.Serves slot b

lemma gives_snapshot_of {net : Network} {retries : Nat} {e : Epoch} {slots : List Slot}
    (h : net.slotsOf e = .ok slots) : Gives (src.Holds net e) (src.snapshot net retries e) := by
  have hstate : Gives (fun s => ∃ i, src.state (net.terminalSlot e) i = .ok s)
      (settle (retrying (src.fetchState (net.terminalSlot e)) retries)) := by
    refine gives_settle fun q q' s hs => ?_
    obtain ⟨q₀, hq⟩ := retrying_ok hs
    exact ⟨_, hq⟩
  have hduties : Gives (fun d => ∃ i, src.duties e i = .ok d)
      (settle (retrying (src.fetchDuties e) retries)) := by
    refine gives_settle fun q q' s hs => ?_
    obtain ⟨q₀, hq⟩ := retrying_ok hs
    exact ⟨_, hq⟩
  have hslots : Gives (fun listed => listed = slots)
      (liftM (net.slotsOf e) : Fetching (List Slot)) := by
    rw [h]
    exact .pure rfl
  refine hstate.bind fun state hs => hduties.bind fun duties hd => hslots.bind fun listed hl => ?_
  have hcells : ∀ c ∈ listed.map fun slot => (slot, Cell.missing), src.Sure c := by
    intro c hc
    obtain ⟨slot, -, rfl⟩ := List.mem_map.1 hc
    exact trivial
  have hkeys : (listed.map fun slot => (slot, Cell.missing)).map (·.1) = slots := by
    rw [List.map_map, hl]
    exact List.map_id _
  refine (gives_fillCells hkeys hcells).bind fun blocks hb => .pure ?_
  obtain ⟨i, hstate⟩ := hs
  exact ⟨⟨i, state, hstate, rfl⟩, hd, slots, h, hb⟩

/-- The snapshot of an epoch whose slots can be counted is had or it is not; no fault ends the
requests for it. -/
theorem gives_snapshot {net : Network} {retries : Nat} {e : Epoch} (h : net.Counts e) :
    Gives (src.Holds net e) (src.snapshot net retries e) := gives_snapshot_of (slotsOf_eq h)

/-- A snapshot that is had holds what the source gave for its epoch. -/
lemma holds_snapshot {net : Network} {retries : Nat} {e : Epoch} {q q' : Requests} {s : Snapshot}
    (h : (src.snapshot net retries e).run q = .ok s q') : src.Holds net e s := by
  have hslots : ∃ slots, net.slotsOf e = .ok slots := by
    have hsteps := h
    simp only [snapshot, EStateM.run, Pass.bind_ok, Pass.fault_ok] at hsteps
    obtain ⟨_, _, -, _, _, -, slots, _, ⟨hslots, -⟩, -⟩ := hsteps
    exact ⟨slots, hslots⟩
  obtain ⟨slots, hslots⟩ := hslots
  exact (gives_snapshot_of hslots).ok h

/-! ### Sources that do not change -/

/-- A source that answers a request alike however often it is made. -/
structure Steady (src : Source) : Prop where
  block : ∀ slot i j, src.block slot i = src.block slot j
  report : ∀ slot i j, src.report slot i = src.report slot j
  duties : ∀ e i j, src.duties e i = src.duties e j
  state : ∀ slot i j, src.state slot i = src.state slot j

/-- What requests came to, without the count of those that were made. -/
def cameTo : EStateM.Result (Failure FetchError) Requests α → Except (Failure FetchError) α
  | .ok a _ => .ok a
  | .error e _ => .error e

lemma cameTo_eq {r r' : EStateM.Result (Failure FetchError) Requests α}
    (h : cameTo r = cameTo r') :
    (∃ a q q', r = .ok a q ∧ r' = .ok a q') ∨ ∃ e q q', r = .error e q ∧ r' = .error e q' := by
  cases r with
  | ok a q =>
    cases r' with
    | ok a' q' =>
      cases h
      exact .inl ⟨a, q, q', rfl, rfl⟩
    | error e' q' => cases h
  | error e q =>
    cases r' with
    | ok a' q' => cases h
    | error e' q' =>
      cases h
      exact .inr ⟨e, q, q', rfl, rfl⟩

/-- Whatever was asked for before, the requests come to the same. -/
def Alike (x : Fetching α) : Prop := ∀ q q', cameTo (x.run q) = cameTo (x.run q')

def AlikeAsked (ask : Asking α) : Prop := ∀ q q', (ask.run q).1 = (ask.run q').1

namespace Alike

lemma pure (a : α) : Alike (pure a : Fetching α) := fun _ _ => rfl

lemma lift (x : Except (Failure FetchError) α) : Alike (liftM x : Fetching α) := by
  intro q q'
  cases x <;> rfl

lemma bind {x : Fetching α} {f : α → Fetching β} (h : Alike x) (hf : ∀ a, Alike (f a)) :
    Alike (x >>= f) := by
  have hrun (q : Requests) : cameTo ((x >>= f).run q) = match x.run q with
      | .ok a u => cameTo ((f a).run u)
      | .error e _ => .error e := by
    show cameTo ((x.bind f) q) = _
    rw [EStateM.bind, EStateM.run]
    cases x q <;> rfl
  intro q q'
  rw [hrun, hrun]
  rcases cameTo_eq (h q q') with ⟨a, u, u', hq, hq'⟩ | ⟨e, u, u', hq, hq'⟩
  · rw [hq, hq']
    exact hf a u u'
  · rw [hq, hq']

lemma map {x : Fetching α} (h : Alike x) (f : α → β) : Alike (f <$> x) := by
  have hrun (q : Requests) : cameTo ((f <$> x).run q) = (cameTo (x.run q)).map f := by
    show cameTo ((x.map f) q) = _
    rw [EStateM.map, EStateM.run]
    cases x q <;> rfl
  intro q q'
  rw [hrun, hrun, h q q']

end Alike

lemma AlikeAsked.retrying {ask : Asking (Fetched α)} (h : AlikeAsked ask) (n : Nat) :
    AlikeAsked (retrying ask n) := by
  induction n with
  | zero => exact h
  | succ n ih =>
    intro q q'
    have hx := h q q'
    rw [Source.retrying, StateT.run_bind, StateT.run_bind]
    cases hq : ask.run q with
    | mk answer u =>
      cases hq' : ask.run q' with
      | mk answer' u' =>
        rw [hq, hq'] at hx
        cases hx
        cases answer with
        | ok a => rfl
        | error e =>
          show ((if e.isNotFound then Pure.pure (.error e) else Source.retrying ask n :
              Asking (Fetched α)).run u).1
            = ((if e.isNotFound then Pure.pure (.error e) else Source.retrying ask n :
              Asking (Fetched α)).run u').1
          split
          · rfl
          · exact ih u u'

lemma AlikeAsked.settle {ask : Asking (Fetched α)} (h : AlikeAsked ask) : Alike (settle ask) := by
  have hrun (q : Requests) : cameTo ((Source.settle ask).run q)
      = (ask.run q).1.mapError .error := by
    rw [EStateM.run, Source.settle]
    cases ask.run q with
    | mk answer u => cases answer <;> rfl
  intro q q'
  rw [hrun, hrun, h q q']

namespace Steady

variable (h : src.Steady)
include h

lemma attachReport (slot : Slot) (b : Block) : Alike (src.attachReport slot b) := by
  intro q q'
  have hrun (q : Requests) : cameTo ((src.attachReport slot b).run q)
      = .ok { b with report := (src.report slot (q.reports.amount slot)).toOption } := rfl
  rw [hrun, hrun, h.report slot _ (q'.reports.amount slot)]

lemma attemptBlock (d : Duties) (last : Bool) (slot : Slot) :
    Alike (src.attemptBlock d last slot) := by
  intro q q'
  have hfetch (q : Requests) : (src.fetchBlock slot).run q
      = (src.block slot 0, { q with blocks := Requests.count q.blocks slot }) := by
    show (src.block slot (q.blocks.amount slot), _) = _
    rw [h.block slot _ 0]
  show cameTo (src.attemptBlock d last slot q) = cameTo (src.attemptBlock d last slot q')
  unfold Source.attemptBlock
  rw [hfetch, hfetch]
  dsimp only
  cases (src.block slot 0).found with
  | ok found =>
    cases found with
    | some b => exact (h.attachReport slot b).map Cell.got _ _
    | none => cases d.proposer? slot <;> rfl
  | error e => rfl

lemma attemptCells (d : Duties) (cells : List (Slot × Cell)) (heeded : Bool) :
    Alike (src.attemptCells d prompt last heeded cells) := by
  induction cells generalizing heeded with
  | nil => exact .pure _
  | cons c cells ih =>
    obtain ⟨slot, cell⟩ := c
    have put (cell : Cell) (heeded : Bool) : Alike (do
        return (slot, cell) :: (← src.attemptCells d prompt last heeded cells)) :=
      (ih heeded).bind fun _ => .pure _
    cases cell with
    | missing =>
      refine (h.attemptBlock d last slot).bind fun cell => ?_
      split
      · exact (Alike.lift _).bind fun _ => put cell _
      · exact put cell _
    | got b => exact put _ _
    | lost e => exact put _ _

lemma fillCells (d : Duties) (n : Nat) (cells : List (Slot × Cell)) :
    Alike (src.fillCells d prompt n cells) := by
  induction n generalizing cells with
  | zero => exact (h.attemptCells d cells true).bind fun _ => .pure _
  | succ n ih =>
    refine (h.attemptCells d cells true).bind fun out => ?_
    dsimp only
    split
    · exact .pure _
    · exact ih out

/-- The snapshots of a source that does not change do not depend on earlier requests. -/
theorem snapshot (net : Network) (retries : Nat) (e : Epoch) :
    Alike (src.snapshot net retries e) := by
  have hstate : AlikeAsked (src.fetchState (net.terminalSlot e)) := fun _ _ => h.state _ _ _
  have hduties : AlikeAsked (src.fetchDuties e) := fun _ _ => h.duties _ _ _
  have hslots : Alike (liftM (net.slotsOf e) : Fetching (List Slot)) := by
    intro q q'
    cases net.slotsOf e <;> rfl
  refine (hstate.retrying retries).settle.bind fun state => ?_
  refine (hduties.retrying retries).settle.bind fun duties => ?_
  exact hslots.bind fun slots => (h.fillCells duties retries _).bind fun _ => .pure _

end Steady

end EpochRewards.Source

namespace EpochRewards.Order

/-- A source that does not change gives the same snapshots again. -/
lemma outcomes_steady {o : Order} (h : o.source.Steady) (q q' : Requests) (es : List Epoch) :
    o.outcomes q es = o.outcomes q' es := by
  induction es generalizing q q' with
  | nil => rfl
  | cons e es ih =>
    have hsame := h.snapshot o.network o.retries e q q'
    unfold outcomes
    rcases Source.cameTo_eq hsame with ⟨s, u, u', hq, hq'⟩ | ⟨f, u, u', hq, hq'⟩
    · rw [hq, hq']
      exact congrArg _ (ih u u')
    · rw [hq, hq']
      exact congrArg _ (ih u u')

end EpochRewards.Order
