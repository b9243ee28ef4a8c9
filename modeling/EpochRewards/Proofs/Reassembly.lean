import EpochRewards.Proofs.Fetches
import EpochRewards.Proofs.Ledgers
import EpochRewards.Source.Archive

/-!
A chain that was taken apart is put together again.

An archive keeps the states, duties, blocks and reports of a chain apart, each under a number of
its own, and has nothing at all for a missed slot. The states of an aligned chain lie in epochs
of their own and list a block for each slot, so that a number leads to one part only. What is
fetched from the archive is then the chain's own state, at the first attempt.
-/

namespace EpochRewards

/-! ### Requests that are answered at once -/

namespace Source

variable {α β : Type} {src : Source}

/-- Whatever was asked for before, the requests come to `a`. -/
def Yields (x : Fetching α) (a : α) : Prop := ∀ q, ∃ q', x.run q = .ok a q'

namespace Yields

variable {x : Fetching α} {a : α} {b : β}

lemma pure (a : α) : Yields (Pure.pure a) a := fun q => ⟨q, rfl⟩

lemma lift {x : Except Fault α} (h : x = .ok a) : Yields (liftM x : Fetching α) a := by
  subst h
  exact fun q => ⟨q, rfl⟩

lemma bind {f : α → Fetching β} (h : Yields x a) (hf : Yields (f a) b) :
    Yields (x >>= f) b := by
  intro q
  obtain ⟨u, hu⟩ := h q
  obtain ⟨q', hq'⟩ := hf u
  exact ⟨q', Pass.bind_ok.2 ⟨a, u, hu, hq'⟩⟩

lemma map (h : Yields x a) (f : α → β) : Yields (f <$> x) (f a) := by
  intro q
  obtain ⟨q', hq'⟩ := h q
  refine ⟨q', ?_⟩
  show x.map f q = _
  rw [EStateM.map, show x q = .ok a q' from hq']

end Yields

/-- An answer at the first attempt needs no other. -/
lemma yields_settle {ask : Asking (Fetched α)} {a : α} (h : ∀ q, (ask.run q).1 = .ok a) (n : Nat) :
    Yields (settle (retrying ask n)) a := by
  intro q
  have hanswer : ∃ q', (retrying ask n).run q = (.ok a, q') := by
    cases hr : ask.run q with
    | mk answer u =>
      obtain rfl : answer = .ok a := by
        have hq := h q
        rwa [hr] at hq
      cases n with
      | zero => exact ⟨u, hr⟩
      | succ n =>
        rw [retrying, StateT.run_bind, hr]
        exact ⟨u, rfl⟩
  obtain ⟨q', hq'⟩ := hanswer
  refine ⟨q', ?_⟩
  show settle (retrying ask n) q = _
  rw [settle, hq']

variable {d : Duties} {prompt last : Bool}

/-- Blocks that are had at the first attempt are all there after a round. -/
lemma yields_attemptCells {bs : List Block}
    (h : ∀ b ∈ bs, Yields (src.attemptBlock d last b.slot) (.got b)) :
    Yields (src.attemptCells d prompt last true (bs.map fun b => (b.slot, .missing)))
      (bs.map fun b => (b.slot, .got b)) := by
  induction bs with
  | nil => exact .pure []
  | cons b bs ih =>
    have hrest := ih fun c hc => h c (List.mem_cons_of_mem _ hc)
    have hloss : firstLoss ((b.slot, .got b) :: bs.map fun b => (b.slot, .missing)) = .ok () := by
      cases bs <;> rfl
    have hheeded : (true && (prompt || (Cell.got b).block?.isSome)) = true := by
      cases prompt <;> rfl
    refine (h b List.mem_cons_self).bind ?_
    rw [if_pos rfl, hloss, hheeded]
    exact (Yields.pure ()).bind (hrest.bind (.pure _))

lemma yields_fillCells {bs : List Block}
    (h : ∀ last, ∀ b ∈ bs, Yields (src.attemptBlock d last b.slot) (.got b)) (n : Nat) :
    Yields (src.fillCells d prompt n (bs.map fun b => (b.slot, .missing))) bs := by
  have hblocks : (bs.map fun b => (b.slot, Cell.got b)).filterMap (·.2.block?) = bs := by
    rw [List.filterMap_map]
    exact List.filterMap_some
  cases n with
  | zero =>
    refine (yields_attemptCells (h true)).bind ?_
    rw [hblocks]
    exact .pure bs
  | succ n =>
    refine (yields_attemptCells (h false)).bind ?_
    dsimp only
    rw [hblocks, List.length_map, if_pos rfl]
    exact .pure bs

end Source

/-! ### Aligned chains -/

/-- The snapshot of an epoch with a block for each slot in order. A missed one is that of the
validator first assigned to the slot. -/
structure Snapshot.Aligned (net : Network) (e : Epoch) (s : Snapshot) : Prop where
  epoch : s.epoch = e
  slot : s.slot = net.terminalSlot e
  listed : net.slotsOf e = .ok (s.blocks.map (·.slot))
  missed : ∀ b ∈ s.blocks, b.proposed = false →
    s.duties.proposer? b.slot = some b.proposer ∧ b = .missed b.slot b.proposer

/-- Each state stands at the place of its epoch, and all slots can be counted. -/
structure Chain.Aligned (c : Chain) : Prop where
  bounded : c.states.length * c.network.slotsPerEpoch.val ≤ Word.max
  state : ∀ (e : Epoch) (s : Snapshot), c.states[e]? = some s → s.Aligned c.network e

namespace Chain.Aligned

variable {c : Chain} {e : Epoch} {s : Snapshot} {b : Block}

lemma counts (h : c.Aligned) (hs : c.states[e]? = some s) : c.network.Counts e := by
  obtain ⟨he, -⟩ := List.getElem?_eq_some_iff.1 hs
  exact Nat.le_trans (Nat.mul_le_mul_right _ he) h.bounded

/-- The slots of a state's blocks are those of its epoch. -/
lemma epochOf_slot (h : c.Aligned) (hs : c.states[e]? = some s) (hb : b ∈ s.blocks) :
    c.network.epochOf b.slot = e := by
  have hcounts := h.counts hs
  have hslots := Except.ok.inj ((h.state e s hs).listed.symm.trans (Source.slotsOf_eq hcounts))
  have hmem : b.slot ∈ s.blocks.map (·.slot) := List.mem_map_of_mem hb
  have hpos := c.network.slotsPerEpoch.pos
  have hstart : c.network.startSlot e = e * c.network.slotsPerEpoch.val :=
    Nat.min_eq_left (Nat.le_trans (Nat.mul_le_mul_right _ (Nat.le_succ e)) hcounts)
  have hstop : c.network.startSlot (e + 1) = (e + 1) * c.network.slotsPerEpoch.val :=
    Nat.min_eq_left hcounts
  rw [hslots, List.mem_range'_1, hstart, hstop] at hmem
  refine Nat.div_eq_of_lt_le hmem.1 ?_
  have harith (start stop slot : Nat) (hstart : start ≤ slot)
      (hslot : slot < start + (stop - start)) (hle : start ≤ stop) : slot < stop := by omega
  exact harith _ _ _ hmem.1 hmem.2 (Nat.mul_le_mul_right _ (Nat.le_succ e))

lemma nodup_slots (h : c.Aligned) (hs : c.states[e]? = some s) :
    (s.blocks.map (·.slot)).Nodup := by
  have hslots :=
    Except.ok.inj ((h.state e s hs).listed.symm.trans (Source.slotsOf_eq (h.counts hs)))
  rw [hslots]
  exact List.nodup_range'

/-- A slot leads to one block of the whole chain. -/
lemma eq_of_slot (h : c.Aligned) (hs : c.states[e]? = some s) (hb : b ∈ s.blocks) {s' : Snapshot}
    {b' : Block} (hs' : s' ∈ c.states) (hb' : b' ∈ s'.blocks) (hslot : b'.slot = b.slot) :
    b' = b := by
  obtain ⟨e', he'⟩ := List.mem_iff_getElem?.1 hs'
  have hepoch : e' = e := by rw [← h.epochOf_slot he' hb', hslot, h.epochOf_slot hs hb]
  subst hepoch
  obtain rfl : s' = s := Option.some.inj (he'.symm.trans hs)
  exact List.inj_on_of_nodup_map (h.nodup_slots hs) hb' hb hslot

/-! ### Parts of the archive -/

lemma get?_states (h : c.Aligned) (hs : c.states[e]? = some s) :
    (Archive.ofChain c).states.get? (c.network.terminalSlot e)
      = some { s with blocks := [], duties := .empty } := by
  have hslot := (h.state e s hs).slot
  refine Ledger.get?_ofList_of_mem ?_ ?_
  · rw [← hslot]
    exact List.mem_map_of_mem (List.mem_of_getElem? hs)
  · intro x hx hkey
    obtain ⟨t, ht, rfl⟩ := List.mem_map.1 hx
    obtain ⟨e', he'⟩ := List.mem_iff_getElem?.1 ht
    have hterminal : c.network.terminalSlot e' = c.network.terminalSlot e :=
      (h.state e' t he').slot.symm.trans hkey
    have hepoch : e' = e := by
      rw [← Network.epochOf_terminalSlot (h.counts he'), hterminal,
        Network.epochOf_terminalSlot (h.counts hs)]
    subst hepoch
    obtain rfl : t = s := Option.some.inj (he'.symm.trans hs)
    rfl

lemma get?_duties (h : c.Aligned) (hs : c.states[e]? = some s) :
    (Archive.ofChain c).duties.get? e = some s.duties := by
  have hepoch := (h.state e s hs).epoch
  refine Ledger.get?_ofList_of_mem ?_ ?_
  · refine List.mem_map.2 ⟨s, List.mem_of_getElem? hs, ?_⟩
    rw [hepoch]
  · intro x hx hkey
    obtain ⟨t, ht, rfl⟩ := List.mem_map.1 hx
    obtain ⟨e', he'⟩ := List.mem_iff_getElem?.1 ht
    obtain rfl : e' = e := (h.state e' t he').epoch.symm.trans hkey
    obtain rfl : t = s := Option.some.inj (he'.symm.trans hs)
    rfl

lemma mem_proposedBlocks (hs : c.states[e]? = some s) (hb : b ∈ s.blocks)
    (hproposed : b.proposed = true) : b ∈ c.states.flatMap (·.proposedBlocks) :=
  List.mem_flatMap.2 ⟨s, List.mem_of_getElem? hs, List.mem_filter.2 ⟨hb, hproposed⟩⟩

/-- The only proposed block of a slot. -/
lemma eq_of_proposed (h : c.Aligned) (hs : c.states[e]? = some s) (hb : b ∈ s.blocks) {b' : Block}
    (hb' : b' ∈ c.states.flatMap (·.proposedBlocks)) (hslot : b'.slot = b.slot) :
    b' = b ∧ b.proposed = true := by
  obtain ⟨t, ht, hmem⟩ := List.mem_flatMap.1 hb'
  obtain ⟨hmem, hproposed⟩ := List.mem_filter.1 hmem
  obtain rfl := h.eq_of_slot hs hb ht hmem hslot
  exact ⟨rfl, hproposed⟩

lemma get?_blocks (h : c.Aligned) (hs : c.states[e]? = some s) (hb : b ∈ s.blocks) :
    (Archive.ofChain c).blocks.get? b.slot
      = if b.proposed then some { b with report := none } else none := by
  split
  · next hproposed =>
    refine Ledger.get?_ofList_of_mem ?_ ?_
    · exact List.mem_map.2 ⟨b, mem_proposedBlocks hs hb hproposed, rfl⟩
    · intro x hx hkey
      obtain ⟨b', hb', rfl⟩ := List.mem_map.1 hx
      rw [(h.eq_of_proposed hs hb hb' hkey).1]
  · next hproposed =>
    refine Ledger.get?_ofList_eq_none fun x hx hkey => ?_
    obtain ⟨b', hb', rfl⟩ := List.mem_map.1 hx
    exact hproposed (h.eq_of_proposed hs hb hb' hkey).2

lemma get?_reports (h : c.Aligned) (hs : c.states[e]? = some s) (hb : b ∈ s.blocks)
    (hproposed : b.proposed = true) : (Archive.ofChain c).reports.get? b.slot = b.report := by
  cases hreport : b.report with
  | some r =>
    refine Ledger.get?_ofList_of_mem ?_ ?_
    · refine List.mem_filterMap.2 ⟨b, mem_proposedBlocks hs hb hproposed, ?_⟩
      rw [hreport]
      rfl
    · intro x hx hkey
      obtain ⟨b', hb', hmap⟩ := List.mem_filterMap.1 hx
      obtain ⟨r', hr', rfl⟩ := Option.map_eq_some_iff.1 hmap
      rw [(h.eq_of_proposed hs hb hb' hkey).1, hreport] at hr'
      exact (Option.some.inj hr').symm
  | none =>
    refine Ledger.get?_ofList_eq_none fun x hx hkey => ?_
    obtain ⟨b', hb', hmap⟩ := List.mem_filterMap.1 hx
    obtain ⟨r', hr', rfl⟩ := Option.map_eq_some_iff.1 hmap
    rw [(h.eq_of_proposed hs hb hb' hkey).1, hreport] at hr'
    cases hr'

/-! ### Putting the parts together -/

lemma yields_attachReport (h : c.Aligned) (hs : c.states[e]? = some s) (hb : b ∈ s.blocks)
    (hproposed : b.proposed = true) : Source.Yields
      ((Archive.ofChain c).source.attachReport b.slot { b with report := none }) b := by
  intro q
  have hreport : ((Archive.ofChain c).source.report b.slot (q.reports.amount b.slot)).toOption
      = b.report := by
    show (Archive.lookup (Archive.ofChain c).reports .report b.slot).toOption = _
    rw [Archive.lookup, h.get?_reports hs hb hproposed]
    cases b.report <;> rfl
  refine ⟨{ q with reports := Requests.count q.reports b.slot }, ?_⟩
  show EStateM.Result.ok { b with report := Except.toOption _ } _ = _
  rw [hreport]

/-- The block of a slot is had at once: with its report, if it was proposed, and otherwise as the
stand-in that it is. -/
lemma yields_attemptBlock (h : c.Aligned) (hs : c.states[e]? = some s) (hb : b ∈ s.blocks)
    (last : Bool) :
    Source.Yields ((Archive.ofChain c).source.attemptBlock s.duties last b.slot) (.got b) := by
  intro q
  have hblock := h.get?_blocks hs hb
  have hfetch : ((Archive.ofChain c).source.fetchBlock b.slot).run q
      = (Archive.lookup (Archive.ofChain c).blocks .block b.slot,
        { q with blocks := Requests.count q.blocks b.slot }) := rfl
  show ∃ q', Source.attemptBlock _ _ _ _ q = _
  unfold Source.attemptBlock
  by_cases hproposed : b.proposed = true
  · rw [if_pos hproposed] at hblock
    rw [hfetch, Archive.lookup, hblock]
    exact (h.yields_attachReport hs hb hproposed).map Source.Cell.got _
  · obtain ⟨hproposer, hmissed⟩ := (h.state e s hs).missed b hb (Bool.eq_false_iff.2 hproposed)
    rw [if_neg hproposed] at hblock
    rw [hfetch, Archive.lookup, hblock]
    simp only [Fetched.found, FetchError.isNotFound, if_true, hproposer]
    exact ⟨_, by rw [← hmissed]⟩

/-- Whatever has been asked for before, the snapshot of an epoch comes to the state of the epoch,
with its blocks, its stand-ins for missed ones, its reports and its duties. -/
lemma yields_snapshot (h : c.Aligned) (retries : Nat) (hs : c.states[e]? = some s) :
    Source.Yields ((Archive.ofChain c).source.snapshot c.network retries e) s := by
  have hstate : ∀ q, (((Archive.ofChain c).source.fetchState (c.network.terminalSlot e)).run q).1
      = .ok { s with blocks := [], duties := .empty } := by
    intro q
    show Archive.lookup _ _ _ = _
    rw [Archive.lookup, h.get?_states hs]
  have hduties : ∀ q, (((Archive.ofChain c).source.fetchDuties e).run q).1 = .ok s.duties := by
    intro q
    show Archive.lookup _ _ _ = _
    rw [Archive.lookup, h.get?_duties hs]
  have hblocks : Source.Yields ((Archive.ofChain c).source.fetchBlocks s.duties retries
      (s.blocks.map (·.slot))) s.blocks := by
    rw [Source.fetchBlocks, List.map_map]
    exact Source.yields_fillCells (fun last b hb => h.yields_attemptBlock hs hb last) retries
  refine (Source.yields_settle hstate retries).bind ?_
  refine (Source.yields_settle hduties retries).bind ?_
  exact (Source.Yields.lift (h.state e s hs).listed).bind (hblocks.bind (.pure s))

end Chain.Aligned

/-- The order to download a chain from its archive. -/
def Chain.order (c : Chain) (range : SlotRange) (retries : Nat) : Order :=
  ⟨c.network, range, retries, (Archive.ofChain c).source⟩

namespace Chain.Aligned

variable {c : Chain} {range : SlotRange} {retries : Nat}

lemma outcomes_order (h : c.Aligned) {es : List Epoch} (hes : ∀ e ∈ es, e < c.states.length)
    (q : Requests) : (c.order range retries).outcomes q es = es.map fun e => (e, c.states[e]?) := by
  induction es generalizing q with
  | nil => rfl
  | cons e es ih =>
    obtain ⟨he, hrest⟩ := List.forall_mem_cons.1 hes
    have hs : c.states[e]? = some c.states[e] := List.getElem?_eq_getElem he
    obtain ⟨q', hq'⟩ := h.yields_snapshot retries hs q
    have hrun : ((c.order range retries).source.snapshot (c.order range retries).network
        (c.order range retries).retries e).run q = .ok c.states[e] q' := hq'
    rw [Order.outcomes, hrun, List.map_cons, hs]
    exact congrArg _ (ih hrest q')

/-- **What is fetched from a chain that was taken apart is the chain itself**: for one epoch,
whatever has been asked for before, and for epochs that are downloaded one after another. -/
theorem reassembled (h : c.Aligned) (range : SlotRange) (retries : Nat) :
    (∀ (e : Epoch) (s : Snapshot), c.states[e]? = some s →
      Source.Yields ((Archive.ofChain c).source.snapshot c.network retries e) s) ∧
    ∀ (es : List Epoch) (q : Requests), (∀ e ∈ es, e < c.states.length) →
      (c.order range retries).outcomes q es = es.map fun e => (e, c.states[e]?) :=
  ⟨fun _ _ hs => h.yields_snapshot retries hs, fun _ q hes => h.outcomes_order hes q⟩

end Chain.Aligned

/-- Two epochs of two slots, each with a missed one, of which the first is assigned twice. -/
def gappedChain : Chain where
  network := { Network.minimal with slotsPerEpoch := ⟨2, by decide⟩ }
  validatorCount := 3
  states :=
    [{ Snapshot.placeholder 0 1 with
        balances := [5]
        blocks :=
          [{ Block.missed 0 2 with
              proposed := true
              withdrawals := [⟨0, 1, 7⟩]
              report := some ⟨9, 9, 0, 0, 0⟩ },
            .missed 1 1]
        duties := ⟨[⟨0, 0, [1]⟩], [⟨2, 0⟩, ⟨1, 1⟩, ⟨2, 1⟩]⟩ },
      { Snapshot.placeholder 1 3 with
        stateRoot := .ones
        blocks := [.missed 2 0, { Block.missed 3 1 with proposed := true }]
        duties := ⟨[], [⟨0, 2⟩, ⟨1, 3⟩]⟩ }]

lemma aligned_gappedChain : gappedChain.Aligned where
  bounded := by decide
  state e s hs := by
    match e, hs with
    | 0, rfl => exact ⟨rfl, rfl, rfl, by decide⟩
    | 1, rfl => exact ⟨rfl, rfl, rfl, by decide⟩

theorem reassembled_gappedChain : gappedChain.Aligned ∧
    (∃ s, gappedChain.states[1]? = some s ∧
      Source.Yields ((Archive.ofChain gappedChain).source.snapshot gappedChain.network 3 1) s) ∧
    (gappedChain.order ⟨0, 3, 0, 1⟩ 3).outcomes .none [0, 1]
      = [(0, gappedChain.states[0]?), (1, gappedChain.states[1]?)] :=
  have h := aligned_gappedChain.reassembled ⟨0, 3, 0, 1⟩ 3
  ⟨aligned_gappedChain, ⟨_, rfl, h.1 1 _ rfl⟩, h.2 [0, 1] .none (by decide)⟩

end EpochRewards
