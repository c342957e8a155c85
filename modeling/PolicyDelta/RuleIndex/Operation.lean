import PolicyDelta.RuleIndex.Build
import PolicyDelta.RuleIndex.Store

/-! What is done with indexes in a store, one operation after another. An operation that fails
leaves the store as it is. -/

namespace PolicyDelta

namespace IndexStore

/-- An operation on the indexes of a store, which are known by their places. -/
inductive Operation where
  /-- Stores an index without entries. -/
  | create (family : RuleFamily) (side : Side)
  /-- Stores the index of a side's policy, built with what a workspace remembers. -/
  | build (eq : Equivalence) (family : RuleFamily) (side : Side) (workers : Int) (w : Workspace)
  | insert (i : Nat) (k : RuleKey) (rule : Rule) (default : Option String)
  | merge (i j : Nat)

/-- What merging two indexes of the store comes to, if there are both. -/
def mergeAt (st : IndexStore) (i j : Nat) : Option (Except MergeMismatch (IndexStore × Nat)) := do
  let a ← st.indexes[i]?
  let b ← st.indexes[j]?
  pure (st.merge a b)

/-- The store after an operation. -/
def apply (st : IndexStore) : Operation → IndexStore
  | .create family side => (st.add { family, side }).1
  | .build eq family side workers w =>
    match ((RuleIndex.build eq family side workers).run.run w).1 with
    | .ok ix => (st.add ix).1
    | .error _ => st
  | .insert i k rule default => st.insert i k rule default
  | .merge i j =>
    match st.mergeAt i j with
    | some (.ok merged) => merged.1
    | _ => st

/-- The store after operations. -/
def after (ops : List Operation) : IndexStore :=
  ops.foldl apply {}

end IndexStore

/-- Merges within merges, of indexes in a store. -/
inductive Merging where
  | index (i : Nat)
  | merge (l r : Merging)

/-- The store after merges, from left to right, and the place of what they give in the end. -/
def Merging.run (st : IndexStore) : Merging → Option (Except MergeMismatch (IndexStore × Nat))
  | .index i => some (.ok (st, i))
  | .merge l r =>
    match l.run st with
    | some (.ok (st, i)) =>
      match r.run st with
      | some (.ok (st, j)) => st.mergeAt i j
      | failed => failed
    | failed => failed

end PolicyDelta
