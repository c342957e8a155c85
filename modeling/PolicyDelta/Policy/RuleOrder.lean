import PolicyDelta.Policy.Rule

/-! The order of rules, field by field, by which they are collected in sets. -/

namespace PolicyDelta

open Std

def RuleHead.order : RuleHead → RuleHead → Ordering :=
  compareLex (compareOn RuleHead.source) <| compareLex (compareOn RuleHead.target) <|
  compareLex (compareOn RuleHead.objectClass) <| compareLex (compareOn RuleHead.cond) <|
  compareLex (compareOn RuleHead.branch) (compareOn RuleHead.line)

instance : Ord RuleHead := ⟨RuleHead.order⟩

instance : TransOrd RuleHead :=
  inferInstanceAs (TransCmp (compareLex _ (compareLex _ (compareLex _ (compareLex _
    (compareLex _ _))))))

instance : LawfulEqOrd RuleHead where
  compare_self := ReflCmp.compare_self
  eq_of_compare {a b} h := by
    change RuleHead.order a b = .eq at h
    simp only [RuleHead.order, compareLex_eq_eq, compareOn, Std.compare_eq_iff_eq] at h
    cases a
    cases b
    simp_all

/-- The order of access vector rules, field by field. -/
def AvRule.order : AvRule → AvRule → Ordering :=
  compareLex (compareOn AvRule.toRuleHead) <| compareLex (compareOn (·.flavor.name))
    (compareOn (·.perms.toList))

instance : Ord AvRule := ⟨AvRule.order⟩

instance : TransOrd AvRule :=
  inferInstanceAs (TransCmp (compareLex _ (compareLex _ _)))

instance : LawfulEqOrd AvRule where
  compare_self := ReflCmp.compare_self
  eq_of_compare {a b} h := by
    change AvRule.order a b = .eq at h
    simp only [AvRule.order, compareLex_eq_eq, compareOn, Std.compare_eq_iff_eq,
      ExtTreeSet.toList_inj] at h
    have flavor := AvFlavor.name_injective h.2.1
    cases a
    cases b
    simp_all

/-- The order of type enforcement rules, field by field. -/
def TeRule.order : TeRule → TeRule → Ordering :=
  compareLex (compareOn TeRule.toRuleHead) <| compareLex (compareOn (·.flavor.name)) <|
    compareLex (compareOn TeRule.default) (compareOn TeRule.name)

instance : Ord TeRule := ⟨TeRule.order⟩

instance : TransOrd TeRule :=
  inferInstanceAs (TransCmp (compareLex _ (compareLex _ (compareLex _ _))))

instance : LawfulEqOrd TeRule where
  compare_self := ReflCmp.compare_self
  eq_of_compare {a b} h := by
    change TeRule.order a b = .eq at h
    simp only [TeRule.order, compareLex_eq_eq, compareOn, Std.compare_eq_iff_eq] at h
    have flavor := TeFlavor.name_injective h.2.1
    cases a
    cases b
    simp_all

namespace Rule

/-- The order of rules: type enforcement rules first, then access vector rules. -/
def order : Rule → Rule → Ordering :=
  compareLex (compareOn av?) (compareOn te?)

instance : Ord Rule := ⟨order⟩

instance : TransOrd Rule :=
  inferInstanceAs (TransCmp (compareLex _ _))

instance : LawfulEqOrd Rule where
  compare_self := ReflCmp.compare_self
  eq_of_compare {a b} h := by
    change order a b = .eq at h
    simp only [order, compareLex_eq_eq, compareOn, Std.compare_eq_iff_eq] at h
    cases a <;> cases b <;> simp_all [av?, te?]

end Rule

end PolicyDelta
