import EpochRewards.Word

/-!
Limits on the sizes of caches, queues and crews.
-/

namespace EpochRewards.Capacity

/-- The most shares that the users of a cache or a queue can hold at once. -/
def maxShares : Nat := 2305843009213693951

def shares (n : Nat) : Except Fault Unit :=
  if n ≤ maxShares then .ok () else .error .tooManyShares

/-- Space for `n` things of `size` bytes each, of which all the bytes have to be counted by a
signed word. -/
def space (size n : Nat) : Except Fault Unit :=
  if size * n < Word.signedBound then .ok () else .error .spaceExceeded

end EpochRewards.Capacity
