import EpochRewards.Proofs.Overflows

/-!
Inclusion opportunities and their index.

The first opportunity after a slot is the first slot whose block was proposed, unless the search
for it ends before: at a slot that no snapshot lists, or at the end of the words. An index saves
searches of a whole epoch. Since only searches that came to an end are saved, and a shorter search
goes the same way as far as it goes, the index is never seen in an answer.
-/

namespace EpochRewards

namespace Window

/-! ### Openings -/

/-- The window lists a block for the slot, and it was not proposed. -/
def Missed (w : Window) (slot : Slot) : Prop :=
  slot < Word.bound ∧ ∃ block, w.blockAt? slot = some block ∧ block.proposed = false

/-- How the search for a proposed block in the `limit` slots after `slot` ends. -/
inductive Opening (w : Window) (slot limit : Nat) : Calc (Option Nat) → Prop
  | found {k : Nat} {block : Block} (pos : 0 < k) (le : k ≤ limit)
      (before : ∀ d, 0 < d → d < k → w.Missed (slot + d)) (word : slot + k < Word.bound)
      (listed : w.blockAt? (slot + k) = some block) (proposed : block.proposed = true) :
      Opening w slot limit (.ok (some k))
  | none (missed : ∀ d, 0 < d → d ≤ limit → w.Missed (slot + d)) : Opening w slot limit (.ok none)
  | unlisted {k : Nat} (pos : 0 < k) (le : k ≤ limit)
      (before : ∀ d, 0 < d → d < k → w.Missed (slot + d)) (word : slot + k < Word.bound)
      (h : w.blockAt? (slot + k) = Option.none) :
      Opening w slot limit (.error (.error (.blockNotInWindow (slot + k))))
  | overflow {k : Nat} (pos : 0 < k) (le : k ≤ limit)
      (before : ∀ d, 0 < d → d < k → w.Missed (slot + d)) (h : Word.bound ≤ slot + k) :
      Opening w slot limit (.error (.fault .addOverflow))

variable {w : Window} {slot limit n delay : Nat} {block : Block}

/-! ### Scans -/

lemma scan_overflow (h : Word.bound ≤ slot + delay) :
    w.scan slot (n + 1) delay = .error (.fault .addOverflow) := by
  rw [scan, Word.add, if_neg (Nat.not_lt.2 h)]
  rfl

lemma scan_unlisted (hword : slot + delay < Word.bound) (h : w.blockAt? (slot + delay) = none) :
    w.scan slot (n + 1) delay = .error (.error (.blockNotInWindow (slot + delay))) := by
  rw [scan, Word.add, if_pos hword]
  show (w.blockAt? (slot + delay)).orFail _ >>= _ = _
  rw [h]
  rfl

lemma scan_listed (hword : slot + delay < Word.bound)
    (h : w.blockAt? (slot + delay) = some block) : w.scan slot (n + 1) delay
      = if block.proposed then .ok (some delay) else w.scan slot n (delay + 1) := by
  rw [scan, Word.add, if_pos hword]
  show (w.blockAt? (slot + delay)).orFail _ >>= _ = _
  rw [h]
  rfl

lemma scan_missed (h : w.Missed (slot + delay)) :
    w.scan slot (n + 1) delay = w.scan slot n (delay + 1) := by
  obtain ⟨hword, block, hblock, hmissed⟩ := h
  rw [scan_listed hword hblock, hmissed]
  rfl

/-- Where nothing was proposed, a scan goes on. -/
lemma scan_skip {m : Nat} (h : ∀ d, delay ≤ d → d < delay + m → w.Missed (slot + d)) :
    w.scan slot (m + n) delay = w.scan slot n (delay + m) := by
  induction m generalizing delay with
  | zero => rw [Nat.zero_add, Nat.add_zero]
  | succ m ih =>
    rw [Nat.succ_add, scan_missed (h delay (Nat.le_refl _) (by omega)),
      ih fun d hd hlt => h d (by omega) (by omega), Nat.add_assoc, Nat.add_comm 1 m]

/-- From a delay before which nothing was proposed a scan finds how the search ends. -/
lemma opening_scan (hpos : 0 < delay) (hn : delay + n = limit + 1)
    (h : ∀ d, 0 < d → d < delay → w.Missed (slot + d)) :
    w.Opening slot limit (w.scan slot n delay) := by
  induction n generalizing delay with
  | zero => exact .none fun d hd hle => h d hd (by omega)
  | succ n ih =>
    have hle : delay ≤ limit := by omega
    by_cases hword : slot + delay < Word.bound
    · cases hlisted : w.blockAt? (slot + delay) with
      | none =>
        rw [scan_unlisted hword hlisted]
        exact .unlisted hpos hle h hword hlisted
      | some block =>
        rw [scan_listed hword hlisted]
        cases hproposed : block.proposed with
        | true => exact .found hpos hle h hword hlisted hproposed
        | false =>
          -- one more slot is known to be missed
          refine ih delay.succ_pos (by omega) fun d hd hlt => ?_
          rcases Nat.lt_succ_iff_lt_or_eq.1 hlt with hlt | rfl
          · exact h d hd hlt
          · exact ⟨hword, block, hlisted, hproposed⟩
    · rw [scan_overflow (Nat.not_lt.1 hword)]
      exact .overflow hpos hle h (Nat.not_lt.1 hword)

/-- There is one way for a search to end, and a scan finds it. -/
lemma scan_eq_iff {r : Calc (Option Nat)} :
    w.scan slot limit 1 = r ↔ w.Opening slot limit r := by
  constructor
  · rintro rfl
    exact opening_scan Nat.one_pos (Nat.add_comm 1 limit) fun d hd hlt => by omega
  · -- the scan gets to the end of the search, and the next step of it is the answer
    have hskip {k : Nat} (hpos : 0 < k) (hle : k ≤ limit)
        (hbefore : ∀ d, 0 < d → d < k → w.Missed (slot + d)) :
        w.scan slot limit 1 = w.scan slot (limit - k + 1) k := by
      have hlimit : limit = (k - 1) + (limit - k + 1) := by omega
      have hk : 1 + (k - 1) = k := by omega
      conv_lhs => rw [hlimit]
      rw [scan_skip fun d hd hlt => hbefore d hd (by omega), hk]
    intro h
    cases h with
    | found pos le before word listed proposed =>
      rw [hskip pos le before, scan_listed word listed, if_pos proposed]
    | none missed =>
      have hall : w.scan slot (limit + 0) 1 = w.scan slot 0 (1 + limit) :=
        scan_skip fun d hd hlt => missed d hd (by omega)
      exact hall
    | unlisted pos le before word h => rw [hskip pos le before, scan_unlisted word h]
    | overflow pos le before h => rw [hskip pos le before, scan_overflow h]

/-! ### Limits -/

/-- What a search of more slots finds is what a search of fewer finds, if it gets that far. -/
lemma Opening.restrict {found : Option Nat} (h : w.Opening slot n (.ok found)) (hn : limit ≤ n) :
    w.Opening slot limit (.ok (found.filter (· ≤ limit))) := by
  cases h with
  | @found k block pos _ before word listed proposed =>
    rw [Option.filter_some]
    by_cases hk : k ≤ limit
    · rw [if_pos (decide_eq_true hk)]
      exact .found pos hk before word listed proposed
    · rw [if_neg (by simpa using hk)]
      exact .none fun d hd hle => before d hd (by omega)
  | none missed => exact .none fun d hd hle => missed d hd (by omega)

/-- A search finds nothing beyond its limit. -/
lemma Opening.filter {r : Calc (Option Nat)} (h : w.Opening slot limit r) :
    (do return (← r).filter (· ≤ limit)) = r := by
  cases h with
  | found _ le _ _ _ _ =>
    show Except.ok (Option.filter _ _) = _
    rw [Option.filter_some, if_pos (decide_eq_true le)]
  | none _ => rfl
  | unlisted _ _ _ _ _ => rfl
  | overflow _ _ _ _ => rfl

end Window

namespace Bundle

open Window

variable {net : Network} {phase : Phase} {preference : ReportPreference} {w : Window}
  {a b c d : Bundle} {slot limit : Nat}

/-! ### The index -/

/-- Every entry of the index is a scan of an epoch that came to an end. -/
def Scanned (b : Bundle) : Prop :=
  ∀ slot delay, b.opportunities.get? slot = some delay →
    b.window.scan slot b.network.slotsPerEpoch.val 1 = .ok delay

lemma scanned_fresh (h : fresh net phase preference w = .ok b) : b.Scanned := by
  simp only [fresh, Calc.bind_ok, Calc.pure_ok] at h
  obtain ⟨_, _, _, _, rfl⟩ := h
  intro slot delay hdelay
  cases hdelay

lemma Change.scanned (h : b.Change c) (hb : b.Scanned) : c.Scanned := by
  cases h with
  | opportunity scanned =>
    intro s d hd
    rw [Ledger.get?_insert] at hd
    split at hd
    · next hs =>
      rw [hs, scanned, Option.some.inj hd]
    · exact hb s d hd
  | _ => exact hb

lemma scanned_changes (h : b.Changes c) (hb : b.Scanned) : c.Scanned := by
  induction h with
  | refl => exact hb
  | tail _ hstep ih => exact hstep.scanned ih

/-- An answer from the index is the one of a search. -/
lemma Scanned.opening (hb : b.Scanned) (hlimit : limit ≤ b.network.slotsPerEpoch.val) :
    b.window.Opening slot limit (b.firstOpportunity slot limit) := by
  rw [firstOpportunity]
  cases hfound : b.opportunities.get? slot with
  | none =>
    have hopening : b.window.Opening slot limit (b.window.scan slot limit 1) := scan_eq_iff.1 rfl
    show b.window.Opening slot limit (do return (← b.window.scan slot limit 1).filter (· ≤ limit))
    rwa [hopening.filter]
  | some delay => exact (scan_eq_iff.1 (hb slot delay hfound)).restrict hlimit

/-- The slots of all committees are indexed, and the index is not to be seen. -/
structure IndexedFaithfully (net : Network) (w : Window) (b : Bundle) : Prop where
  indexed : ∀ slot ∈ dutySlots w, (b.opportunities.get? slot).isSome
  scan : ∀ slot limit, limit ≤ net.slotsPerEpoch.val →
    b.firstOpportunity slot limit = w.scan slot limit 1
  opening : ∀ slot limit r, limit ≤ net.slotsPerEpoch.val →
    (b.firstOpportunity slot limit = r ↔ w.Opening slot limit r)

/-- **The index changes no answer.** Once the opportunities of a window were indexed, whatever
passes were run before and after, the first opportunity within an epoch of any slot is what a scan
of the blocks finds: the least delay with a proposed block, none, or the first obstacle before
it. -/
theorem indexed_faithfully (ha : fresh net phase preference w = .ok a) (hbefore : a.Changes b)
    (hindex : indexOpportunities b = .ok () c) (hafter : c.Changes d) :
    IndexedFaithfully net w d := by
  have hindexed : c.Stands net w (dutySlots w) := by
    have hmeets := indexOpportunities_meets (stands_changes hbefore (stands_fresh ha))
    rw [hindex] at hmeets
    exact hmeets
  have hstands : d.Stands net w (dutySlots w) := stands_changes hafter hindexed
  have hchanges : a.Changes d :=
    hbefore.trans ((makes_indexOpportunities.changes_of_ok hindex).trans hafter)
  have hscan (slot limit : Nat) (hlimit : limit ≤ net.slotsPerEpoch.val) :
      w.scan slot limit 1 = d.firstOpportunity slot limit := by
    have hopening : d.window.Opening slot limit (d.firstOpportunity slot limit) :=
      (scanned_changes hchanges (scanned_fresh ha)).opening (by rwa [hstands.network])
    rw [hstands.window] at hopening
    exact scan_eq_iff.2 hopening
  exact {
    indexed := hstands.indexed
    scan := fun slot limit hlimit => (hscan slot limit hlimit).symm
    opening := fun slot limit r hlimit => by rw [← hscan slot limit hlimit, scan_eq_iff] }

/-- The block of slot nine is the only one that was proposed, and none is listed after eleven. -/
def gapWindow : Window :=
  let snapshot (epoch : Epoch) (slots : List Slot) : Snapshot :=
    { Snapshot.placeholder epoch (4 * epoch + 3) with
      blocks := slots.map fun slot => { Block.missed slot 0 with proposed := slot == 9 }
      duties := ⟨[⟨4 * epoch + 1, 0, []⟩], []⟩ }
  ⟨snapshot 1 [4, 5, 6, 7], snapshot 2 [8, 9, 10, 11], snapshot 3 []⟩

lemma gapWindow_runs : ∃ a c, fresh .fourSlots .altair .strictlyPositive gapWindow = .ok a ∧
    indexOpportunities a = .ok () c := ⟨_, _, rfl, rfl⟩

/-- The limit may be before the block that was found for the index, and a slot that is not indexed
may have no answer. -/
theorem gapWindow_indexed_faithfully :
    ∃ a c, fresh .fourSlots .altair .strictlyPositive gapWindow = .ok a ∧
      indexOpportunities a = .ok () c ∧ IndexedFaithfully .fourSlots gapWindow c ∧
      dutySlots gapWindow = [5] ∧ c.firstOpportunity 5 3 = .ok none ∧
      c.firstOpportunity 5 4 = .ok (some 4) ∧ c.firstOpportunity 9 2 = .ok none ∧
      c.firstOpportunity 9 3 = .error (.error (.blockNotInWindow 12)) ∧
      c.firstOpportunity Word.max 1 = .error (.fault .addOverflow) := by
  obtain ⟨a, c, ha, hc⟩ := gapWindow_runs
  have h : IndexedFaithfully .fourSlots gapWindow c := indexed_faithfully ha .refl hc .refl
  exact ⟨a, c, ha, hc, h, by cbv, (h.scan 5 3 (by decide)).trans rfl,
    (h.scan 5 4 (by decide)).trans rfl, (h.scan 9 2 (by decide)).trans rfl,
    (h.scan 9 3 (by decide)).trans rfl, (h.scan Word.max 1 (by decide)).trans rfl⟩

end Bundle

end EpochRewards
