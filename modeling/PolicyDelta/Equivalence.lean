import PolicyDelta.Policy.Scope
import PolicyDelta.RuleKey
import PolicyDelta.Side
import PolicyDelta.TypeDelta

/-! Which types and conditions of two policies are the same. Types are mapped into one space of
canonical names, in which a renamed type of the base policy has its modified name and every
other type its own. A rule's coverage is what the rule says in canonical names before its
attributes are expanded. -/

namespace PolicyDelta

/-- What a rule says: types by canonical names, an attribute by its name after an at sign. -/
structure Coverage where
  kind : String
  source : String
  target : String
  objectClass : String
  cond : Option String
  branch : Option Bool
  name : Option String
deriving DecidableEq

namespace Coverage

open Std

/-- The order of coverages, field by field; an absent part comes first. -/
def order : Coverage → Coverage → Ordering :=
  compareLex (compareOn kind) <| compareLex (compareOn source) <|
  compareLex (compareOn target) <| compareLex (compareOn objectClass) <|
  compareLex (compareOn cond) <| compareLex (compareOn branch) (compareOn name)

instance : Ord Coverage := ⟨order⟩

instance : TransOrd Coverage :=
  inferInstanceAs (TransCmp (compareLex _ (compareLex _ (compareLex _ (compareLex _
    (compareLex _ (compareLex _ _)))))))

instance : LawfulEqOrd Coverage where
  compare_self := ReflCmp.compare_self
  eq_of_compare {a b} h := by
    change order a b = .eq at h
    simp only [order, compareLex_eq_eq, compareOn, Std.compare_eq_iff_eq] at h
    cases a
    cases b
    simp_all

end Coverage

/-- Two policies and the correspondence of their types and conditions. -/
structure Equivalence where
  base : Scope
  modified : Scope
  renames : Renames
  conditionals : NameMap String

namespace Equivalence

/-- The renamings name types of the two policies. The first pair that does not is the error. -/
def checkRenames (base modified : Scope) :
    List (String × String) → Except UnknownIdentifier Unit
  | [] => .ok ()
  | (old, new) :: rest =>
    if old ∉ base.policy.types then .error ⟨old, .type, base.id⟩
    else if new ∉ modified.policy.types then .error ⟨new, .type, modified.id⟩
    else checkRenames base modified rest

/-- The correspondence that a difference of types describes. -/
def make (base modified : Scope) (d : TypeDelta) : Except UnknownIdentifier Equivalence := do
  checkRenames base modified d.renames.pairs
  pure ⟨base, modified, d.renames, d.conditionals⟩

def scope (e : Equivalence) : Side → Scope
  | .base => e.base
  | .modified => e.modified

/-- The canonical name of a type of a side's policy. -/
def canonicalType (e : Equivalence) (side : Side) (name : String) :
    Except UnknownIdentifier String :=
  if name ∈ (e.scope side).policy.types then
    match side with
    | .base => .ok (e.renames.canonical name)
    | .modified => .ok name
  else .error ⟨name, .type, (e.scope side).id⟩

/-- The canonical name of a condition. -/
def canonicalCond (e : Equivalence) (side : Side) (cond : Option String) : Option String :=
  match side with
  | .base => cond.map fun c => e.conditionals.getD c c
  | .modified => cond

/-- The canonical form of a rule's source or target. -/
def canonicalEndpoint (e : Equivalence) (side : Side) (nominal : String) :
    Except UnknownIdentifier String :=
  if nominal = selfTarget then .ok selfTarget
  else do
    match ← (e.scope side).kindOf nominal with
    | .attributeName => pure ("@" ++ nominal)
    | .typeName | .aliasName => e.canonicalType side (← (e.scope side).lookupType nominal)

/-- The branch counts only under a condition. -/
def branchUnder (cond : Option String) (branch : Bool) : Option Bool :=
  cond.map fun _ => branch

/-- The key of a rule at a pair of types. -/
def keyOf (e : Equivalence) (side : Side) (rule : Rule) (source target : String) :
    Except UnknownIdentifier RuleKey := do
  let cond := e.canonicalCond side rule.head.cond
  let source ← e.canonicalType side source
  let target ← e.canonicalType side target
  pure
    { kind := rule.kind
      objectClass := rule.head.objectClass
      source, target, cond
      branch := branchUnder cond rule.head.branch
      name := rule.fileName }

/-- What a rule says in canonical names. -/
def coverageOf (e : Equivalence) (side : Side) (rule : Rule) :
    Except UnknownIdentifier Coverage := do
  let cond := e.canonicalCond side rule.head.cond
  let source ← e.canonicalEndpoint side rule.head.source
  let target ← e.canonicalEndpoint side rule.head.target
  pure
    { kind := rule.kind
      source, target
      objectClass := rule.head.objectClass
      cond
      branch := branchUnder cond rule.head.branch
      name := rule.fileName }

end Equivalence

end PolicyDelta
