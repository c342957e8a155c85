import PolicyDelta.Proofs.Canonical
import PolicyDelta.Proofs.Comparison

/-! The difference of types that two policies have themselves. An attribute gained the members that
it has on the modified side only, by canonical names, and lost those that it has on the base side
only. -/

namespace PolicyDelta

/-- Inserting the values of a function at some keys. -/
theorem getElem?_insertMany_filterMap {β : Type} (f : String → Option β) (keys : List String)
    {m : NameMap β} {a : String} (hm : ∀ v, m[a]? = some v → f a = some v) :
    (m.insertMany (keys.filterMap fun a => (f a).map (a, ·)))[a]? =
      if a ∈ keys then f a else m[a]? := by
  induction keys generalizing m with
  | nil => simp
  | cons b keys ih =>
    cases hb : f b with
    | none =>
      have hrest := ih hm
      by_cases ha : a = b
      · subst ha
        have hnone : m[a]? = none := by
          refine Option.eq_none_iff_forall_ne_some.2 fun v hv => ?_
          cases hb.symm.trans (hm v hv)
        simpa [hb, hnone] using hrest
      · simpa [hb, ha] using hrest
    | some v =>
      have hinsert : ∀ w, (m.insert b v)[a]? = some w → f a = some w := by
        intro w hw
        rw [Std.ExtTreeMap.getElem?_insert] at hw
        split at hw
        · rename_i heq
          obtain rfl := Std.LawfulEqCmp.eq_of_compare heq
          exact hb.trans hw
        · exact hm w hw
      have hrest := ih hinsert
      by_cases ha : a = b
      · subst ha
        simpa [hb, Std.ExtTreeMap.insertMany_cons] using hrest
      · simpa [hb, ha, Ne.symm ha, Std.ExtTreeMap.insertMany_cons,
          Std.ExtTreeMap.getElem?_insert] using hrest

namespace TypeDelta

variable {base modified : Policy} {renames : Renames} {a t : String}

/-- The members of an attribute on the base side, by canonical names. -/
def before (base : Policy) (renames : Renames) (a : String) : NameSet :=
  (base.attributes.getD a ∅).map renames.canonical

/-- The members of an attribute on the modified side. -/
def after (modified : Policy) (a : String) : NameSet := modified.attributes.getD a ∅

theorem getElem?_between : (between base modified renames).attributes[a]? =
    membershipDelta? (before base renames a) (after modified a) := by
  let delta (a : String) := membershipDelta? (before base renames a) (after modified a)
  have hbetween : (between base modified renames).attributes =
      Std.ExtTreeMap.insertMany ∅ ((base.attributes.keys ++ modified.attributes.keys).filterMap
        fun a => (delta a).map (a, ·)) := by
    rw [← Std.ExtTreeMap.ofList_eq_insertMany_empty]
    rfl
  rw [hbetween, getElem?_insertMany_filterMap delta _ (by simp)]
  split
  · rfl
  · rename_i hkeys
    simp only [List.mem_append, Std.ExtTreeMap.mem_keys, not_or] at hkeys
    have hbefore : before base renames a = ∅ := by
      rw [before, Std.ExtTreeMap.getD_eq_fallback hkeys.1]
      rfl
    have hafter : after modified a = ∅ := Std.ExtTreeMap.getD_eq_fallback hkeys.2
    simp [membershipDelta?, hbefore, hafter]

theorem mem_attributeAdded : t ∈ (between base modified renames).attributeAdded a ↔
    t ∈ after modified a ∧ t ∉ before base renames a := by
  rw [attributeAdded, getElem?_between, membershipDelta?]
  by_cases heq : before base renames a = after modified a
  · simp [heq]
  · simp [heq, Std.ExtTreeSet.mem_diff_iff]

theorem mem_attributeRemoved : t ∈ (between base modified renames).attributeRemoved a ↔
    t ∈ before base renames a ∧ t ∉ after modified a := by
  rw [attributeRemoved, getElem?_between, membershipDelta?]
  by_cases heq : before base renames a = after modified a
  · simp [heq]
  · simp [heq, Std.ExtTreeSet.mem_diff_iff]

end TypeDelta

/-- The correspondence of two policies by the difference of types that they have themselves. -/
abbrev Equivalence.derived (base modified : Policy) (renames : Renames) : Equivalence :=
  .ofDelta base modified (.between base modified renames)

variable {base modified : Policy} {renames : Renames}

namespace Equivalence

theorem members_base (a : String) :
    (derived base modified renames).members .base a = TypeDelta.before base renames a := rfl

theorem members_modified (a : String) :
    (derived base modified renames).members .modified a = TypeDelta.after modified a := by
  refine Std.ExtTreeSet.ext_mem fun t => ?_
  simp only [members, NameSet.mem_map, canonicalName, id, exists_eq_right]
  rfl

end Equivalence

/-- The members that an attribute has on one side only are those that it has on this side and not on
the other, by canonical names. -/
theorem Classifier.mem_freshMembers {index : RuleFamily → Side → RuleIndex} {family : RuleFamily}
    {side : Side} {a t : String} :
    t ∈ (Session.classifierOf (.derived base modified renames) (.between base modified renames)
        index family).freshMembers a side ↔
      t ∈ (Equivalence.derived base modified renames).members side a ∧
      t ∉ (Equivalence.derived base modified renames).members side.other a := by
  cases side with
  | base =>
    rw [Equivalence.members_base, Side.other, Equivalence.members_modified]
    exact TypeDelta.mem_attributeRemoved
  | modified =>
    rw [Equivalence.members_modified, Side.other, Equivalence.members_base]
    exact TypeDelta.mem_attributeAdded

end PolicyDelta
