import PolicyDelta.Proofs.Derived
import PolicyDelta.Proofs.Mirror

/-! The difference of types that two policies have themselves is a patch. It turns the canonical
types of the base policy into those of the modified one and the members of each attribute into
those that the modified policy gives it, by removing what was there and adding what was not
(`TypeDelta.between_patches`). Without renamings the patch back is its mirror. -/

namespace PolicyDelta

namespace NameSet

/-- What is removed from a set and added to it makes it another one. All that is removed was there,
and nothing that is added was. -/
structure Patches (before removed added after : NameSet) : Prop where
  patched : (before \ removed) ∪ added = after
  removed_old : ∀ x ∈ removed, x ∈ before
  added_new : ∀ x ∈ added, x ∉ before

theorem patches_diff (s t : NameSet) : Patches s (s \ t) (t \ s) t where
  patched := Std.ExtTreeSet.ext_mem fun x => by
    simp only [Std.ExtTreeSet.mem_union_iff, Std.ExtTreeSet.mem_diff_iff]
    by_cases hs : x ∈ s <;> by_cases ht : x ∈ t <;> simp [hs, ht]
  removed_old _ hx := (Std.ExtTreeSet.mem_diff_iff.1 hx).1
  added_new _ hx := (Std.ExtTreeSet.mem_diff_iff.1 hx).2

theorem map_canonical_empty (s : NameSet) : s.map (∅ : Renames).canonical = s := by
  have hname (n : String) : (∅ : Renames).canonical n = n := rfl
  exact Std.ExtTreeSet.ext_mem fun x => by simp [mem_map, hname]

end NameSet

namespace TypeDelta

variable {base modified : Policy} {renames : Renames} {a : String}

/-- The members that an attribute gained, be it listed or not. -/
theorem attributeAdded_between : (between base modified renames).attributeAdded a =
    after modified a \ before base renames a :=
  Std.ExtTreeSet.ext_mem fun _ => mem_attributeAdded.trans Std.ExtTreeSet.mem_diff_iff.symm

/-- The members that an attribute lost, be it listed or not. -/
theorem attributeRemoved_between : (between base modified renames).attributeRemoved a =
    before base renames a \ after modified a :=
  Std.ExtTreeSet.ext_mem fun _ => mem_attributeRemoved.trans Std.ExtTreeSet.mem_diff_iff.symm

/-- The attributes that are listed are those whose members differ. -/
theorem mem_attributes_between : a ∈ (between base modified renames).attributes ↔
    before base renames a ≠ after modified a := by
  rw [← Std.ExtTreeMap.isSome_getElem?_iff_mem, getElem?_between, membershipDelta?]
  by_cases heq : before base renames a = after modified a <;> simp [heq]

theorem before_empty : before base ∅ a = after base a := NameSet.map_canonical_empty _

theorem membershipDelta?_swap (s t : NameSet) :
    membershipDelta? t s = (membershipDelta? s t).map fun m => ⟨m.removed, m.added⟩ := by
  unfold membershipDelta?
  by_cases heq : s = t
  · simp [heq]
  · simp [heq, Ne.symm heq]

/-- Exchanging two policies exchanges what is added and what is removed. -/
theorem between_swap (base modified : Policy) :
    between modified base ∅ = (between base modified ∅).mirror := by
  have hadded (p q : Policy) : (between p q ∅).addedTypes = q.types \ p.types :=
    congrArg (q.types \ ·) (NameSet.map_canonical_empty p.types)
  have hremoved (p q : Policy) : (between p q ∅).removedTypes = p.types \ q.types :=
    congrArg (· \ q.types) (NameSet.map_canonical_empty p.types)
  have hattributes : (between modified base ∅).attributes =
      (between base modified ∅).mirror.attributes := by
    refine Std.ExtTreeMap.ext_getElem? fun a => ?_
    rw [getElem?_mirror, getElem?_between, getElem?_between, before_empty, before_empty,
      membershipDelta?_swap]
  refine (TypeDelta.mk.injEq ..).mpr ⟨rfl, ?_, ?_, hattributes, rfl⟩
  · exact (hadded modified base).trans (hremoved base modified).symm
  · exact (hremoved modified base).trans (hadded base modified).symm

/-- The difference of two policies patches the members of every attribute, and it lists exactly
those whose members differ. It patches the types too, and without renamings the difference of the
exchanged policies is its mirror. -/
theorem between_patches (base modified : Policy) (renames : Renames) :
    (∀ a, NameSet.Patches (before base renames a)
      ((between base modified renames).attributeRemoved a)
      ((between base modified renames).attributeAdded a) (after modified a)) ∧
    (∀ a, a ∈ (between base modified renames).attributes ↔
      before base renames a ≠ after modified a) ∧
    NameSet.Patches (base.types.map renames.canonical)
      (between base modified renames).removedTypes (between base modified renames).addedTypes
      modified.types ∧
    between modified base ∅ = (between base modified ∅).mirror := by
  refine ⟨fun a => ?_, fun a => mem_attributes_between, ?_, between_swap base modified⟩
  · rw [attributeRemoved_between, attributeAdded_between]
    exact NameSet.patches_diff _ _
  · exact NameSet.patches_diff _ _

end TypeDelta

end PolicyDelta
