/-! Splitting work among workers. -/

namespace PolicyDelta

/-- Consecutive parts of a length; the last may be shorter. -/
def consecutive (size : Nat) (items : List α) : List (List α) :=
  go items.length items
where
  /-- The parts of the remaining items; each step takes at least one of them. -/
  go : Nat → List α → List (List α)
    | 0, _ => []
    | _, [] => []
    | n + 1, items => items.take size :: go n (items.drop size)

/-- At most `count` consecutive parts of equal length but for the last. A single part holds what
cannot be split: no or one item, or everything for a count of one or less. -/
def shards (items : List α) (count : Int) : List (List α) :=
  if count ≤ 1 ∨ items.length ≤ 1 then [items]
  else consecutive ((items.length + count.toNat - 1) / count.toNat) items

end PolicyDelta
