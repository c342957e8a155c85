import PolicyDelta.RuleKey

/-! Sort keys. What is sorted is compared by tuples of texts and flags. Tuples are compared place by
place, and the first place at which they differ decides. A text is not compared with a flag. The
tuple of a rule key has a place for each of its parts. -/

namespace PolicyDelta

/-- A text, a flag or a tuple of sort keys. -/
inductive SortKey where
  | text (s : String)
  | flag (b : Bool)
  | tuple (places : List SortKey)

namespace SortKey

mutual

/-- How two sort keys compare. Those of different kinds do not. -/
def compare? : SortKey → SortKey → Option Ordering
  | text s, text t => some (compare s t)
  | flag a, flag b => some (compare a b)
  | tuple xs, tuple ys => comparePlaces? xs ys
  | _, _ => none

/-- How two tuples compare; one that ends where the other goes on is the smaller one. -/
def comparePlaces? : List SortKey → List SortKey → Option Ordering
  | [], [] => some .eq
  | [], _ :: _ => some .lt
  | _ :: _, [] => some .gt
  | x :: xs, y :: ys =>
    match compare? x y with
    | some .eq => comparePlaces? xs ys
    | o => o

end

/-- The rank of an optional part: whether it is there, and its value. An absent part of any kind has
the empty text for a value. -/
def rank (key : α → SortKey) : Option α → SortKey
  | none => tuple [flag false, text ""]
  | some a => tuple [flag true, key a]

end SortKey

namespace RuleKey

def sortKey (k : RuleKey) : SortKey :=
  .tuple [.text k.objectClass, .text k.source, .text k.target, .text k.kind, .rank .text k.cond,
    .rank .flag k.branch, .rank .text k.name]

/-- The sort key of a rule key is smaller. -/
def Before (k l : RuleKey) : Prop := k.sortKey.compare? l.sortKey = some .lt

instance (k l : RuleKey) : Decidable (k.Before l) :=
  inferInstanceAs (Decidable (k.sortKey.compare? l.sortKey = some .lt))

end RuleKey

end PolicyDelta
