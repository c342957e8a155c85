import PolicyDelta.Equivalence
import PolicyDelta.Log.Event

/-! Expansion of rules into pairs of types. The types that a name stands for are remembered under
the identity of the policy and the name, so policies that share an identity share what was
remembered. -/

namespace PolicyDelta

/-- A source type and a target type. -/
abbrev TypePair := String × String

def typePairs (sources targets : NameSet) : List TypePair :=
  sources.toList.flatMap fun s => targets.toList.map fun t => (s, t)

/-- The pairs of a source with itself. -/
def selfPairs (sources : NameSet) : List TypePair :=
  sources.toList.map fun s => (s, s)

/-- The pairs of types of a source and a target; `self` stands for the source. -/
def Scope.pairsOf (s : Scope) (source target : String) :
    Except UnknownIdentifier (List TypePair) := do
  let sources ← s.typesOf source
  if target = selfTarget then pure (selfPairs sources)
  else pure (typePairs sources (← s.typesOf target))

open Std

/-- The order of a policy's identity with a name. -/
def Expander.slotOrder : String × String → String × String → Ordering :=
  compareLex (compareOn Prod.fst) (compareOn Prod.snd)

instance : TransCmp Expander.slotOrder :=
  inferInstanceAs (TransCmp (compareLex _ _))

instance : LawfulEqCmp Expander.slotOrder where
  compare_self := ReflCmp.compare_self
  eq_of_compare {a b} h := by
    simp only [Expander.slotOrder, compareLex_eq_eq, compareOn, Std.compare_eq_iff_eq] at h
    exact Prod.ext h.1 h.2

/-- The expansions that are remembered, by the policy's identity and the name. -/
structure Expander where
  known : ExtTreeMap (String × String) NameSet Expander.slotOrder := ∅

namespace Expander

/-- The types that a name stands for, the expander afterwards and what there is to tell. A failure
is not remembered. -/
def types (x : Expander) (s : Scope) (name : String) :
    Except UnknownIdentifier NameSet × Expander × List Event :=
  match x.known[(s.id, name)]? with
  | some types => (.ok types, x, [])
  | none =>
    match s.typesOf name with
    | .error e => (.error e, x, [])
    | .ok types =>
      (.ok types, ⟨x.known.insert (s.id, name) types⟩,
        if types.isEmpty then [.emptyAttribute name s.id] else [])

/-- The pairs of types of a source and a target, which are expanded in this order. -/
def pairs (x : Expander) (s : Scope) (source target : String) :
    Except UnknownIdentifier (List TypePair) × Expander × List Event :=
  match x.types s source with
  | (.error e, x, told) => (.error e, x, told)
  | (.ok sources, x, told) =>
    if target = selfTarget then (.ok (selfPairs sources), x, told)
    else
      match x.types s target with
      | (.error e, x, more) => (.error e, x, told ++ more)
      | (.ok targets, x, more) => (.ok (typePairs sources targets), x, told ++ more)

/-- The expander that remembers nothing. -/
def clear (_ : Expander) : Expander := {}

end Expander

end PolicyDelta
