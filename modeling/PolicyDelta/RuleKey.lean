import PolicyDelta.Policy.Rule
import PolicyDelta.Validation.Container

/-! The keys under which rules of two policies are compared. A key names a pair of types, not of
attributes, by canonical names. Keys are ordered by class, source, target, kind, condition, branch
and file name; an absent part comes before every present one. -/

namespace PolicyDelta

/-- What the rules that are compared with each other have in common. -/
structure RuleKey where
  kind : String
  objectClass : String
  source : String
  target : String
  cond : Option String := none
  branch : Option Bool := none
  name : Option String := none
deriving DecidableEq

namespace RuleKey

def text (k : RuleKey) : String :=
  s!"{k.kind} {k.source} {k.target} : {k.objectClass}{fileNameText k.name}"

open Std

def order : RuleKey → RuleKey → Ordering :=
  compareLex (compareOn objectClass) <| compareLex (compareOn source) <|
  compareLex (compareOn target) <| compareLex (compareOn kind) <|
  compareLex (compareOn cond) <| compareLex (compareOn branch) (compareOn name)

instance : Ord RuleKey := ⟨order⟩

instance : TransOrd RuleKey :=
  inferInstanceAs (TransCmp (compareLex _ (compareLex _ (compareLex _ (compareLex _
    (compareLex _ (compareLex _ _)))))))

instance : LawfulEqOrd RuleKey where
  compare_self := ReflCmp.compare_self
  eq_of_compare {a b} h := by
    change order a b = .eq at h
    simp only [order, compareLex_eq_eq, compareOn, Std.compare_eq_iff_eq] at h
    cases a
    cases b
    simp_all

open Check

/-- The check of a key; its class may also be called `cls`. -/
def check : Json → Checked RuleKey :=
  fields .modelType fun ms =>
    let className :=
      match Json.member? "class" ms, Json.member? "cls" ms with
      | none, some _ => field ms "cls" string
      | _, _ => field ms "class" string
    RuleKey.mk <$> field ms "kind" string <*> className <*> field ms "source" string <*>
      field ms "target" string <*> fieldOr ms "cond" none (nullable string) <*>
      fieldOr ms "branch" none (nullable bool) <*> fieldOr ms "name" none (nullable string)

end RuleKey

end PolicyDelta
