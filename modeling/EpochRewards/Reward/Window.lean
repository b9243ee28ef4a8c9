import EpochRewards.Reward.Error

/-!
Windows of three snapshots: the epoch whose duties are rewarded, the epoch in which the
rewards are computed and the epoch in which they show up in balances.
-/

namespace EpochRewards

structure Window where
  prev : Snapshot
  current : Snapshot
  next : Snapshot
  deriving DecidableEq

namespace Window

def snapshots (w : Window) : List Snapshot := [w.prev, w.current, w.next]

def blocks (w : Window) : List Block := w.snapshots.flatMap (·.blocks)

def blocksBeforeNext (w : Window) : List Block := w.prev.blocks ++ w.current.blocks

/-- The block of a slot in the first snapshot that lists one. -/
def blockAt? (w : Window) (slot : Slot) : Option Block :=
  w.snapshots.findSome? (·.blockAt? slot)

/-- The delay of the first proposed block among those `delay`, `delay + 1`, … slots after
`slot`, as many as the second argument says. -/
def scan (w : Window) (slot : Slot) : Nat → Nat → Calc (Option Nat)
  | 0, _ => return none
  | n + 1, delay => do
    let inclusion ← Word.add slot delay
    let block ← (w.blockAt? inclusion).orFail (.blockNotInWindow inclusion)
    if block.proposed then return some delay else w.scan slot n (delay + 1)

/-- Rewards exist once two snapshots precede the last one, and none exist at genesis. -/
def isRewarded (w : Window) : Bool :=
  !w.prev.isPlaceholder && !w.current.isPlaceholder && w.current.epoch != 0

end Window

end EpochRewards
