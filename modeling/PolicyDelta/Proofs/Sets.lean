import PolicyDelta.PermissionSplit

/-! Sets of names and their lists. A set is the set of its list, which is in strict order, and a map
is the map of its pairs. The parts of a comparison of two sets make up both of them. -/

namespace PolicyDelta

/-- A list of names is in strict order. -/
def Ordered (names : List String) : Prop := names.Pairwise fun x y => compare x y = .lt

namespace NameSet

theorem ordered_toList (s : NameSet) : Ordered s.toList := Std.ExtTreeSet.ordered_toList

theorem nodup_toList (s : NameSet) : s.toList.Nodup :=
  Std.ExtTreeSet.distinct_toList.imp fun hne heq => hne (Std.compare_eq_iff_eq.2 heq)

theorem ofList_toList (s : NameSet) : (.ofList s.toList : NameSet) = s :=
  Std.ExtTreeSet.ext_mem fun x => by simp [Std.ExtTreeSet.mem_ofList]

theorem toList_ne_nil {s : NameSet} (h : s ≠ ∅) : s.toList ≠ [] := by
  intro hnil
  refine h ?_
  rw [← ofList_toList s, hnil]
  rfl

theorem ofList_append (s t : NameSet) : (.ofList (s.toList ++ t.toList) : NameSet) = s ∪ t :=
  Std.ExtTreeSet.ext_mem fun x => by
    simp [Std.ExtTreeSet.mem_ofList, Std.ExtTreeSet.mem_union_iff]

end NameSet

/-- A map is the map of its pairs. -/
theorem NameMap.ofList_toList {α : Type} (m : NameMap α) :
    (Std.ExtTreeMap.ofList m.toList : NameMap α) = m := by
  have hdistinct : m.toList.Pairwise fun a b => ¬compare a.1 b.1 = .eq :=
    Std.ExtTreeMap.distinct_keys_toList
  apply Std.ExtTreeMap.ext_getElem?
  intro k
  cases hk : m[k]? with
  | some v =>
    have hmem := Std.ExtTreeMap.mem_toList_iff_getElem?_eq_some.2 hk
    exact Std.ExtTreeMap.getElem?_ofList_of_mem Std.ReflCmp.compare_self hdistinct hmem
  | none =>
    apply Std.ExtTreeMap.getElem?_ofList_of_contains_eq_false
    rw [← Bool.not_eq_true, List.contains_iff_mem]
    intro hmem
    obtain ⟨⟨_, v⟩, hpair, rfl⟩ := List.mem_map.1 hmem
    rw [Std.ExtTreeMap.mem_toList_iff_getElem?_eq_some.1 hpair] at hk
    cases hk

namespace PermissionSplit

variable (s t : NameSet)

theorem unmodified_union_removed : (between s t).unmodified ∪ (between s t).removed = s :=
  Std.ExtTreeSet.ext_mem fun x => by
    simp only [between, Std.ExtTreeSet.mem_union_iff, Std.ExtTreeSet.mem_inter_iff,
      Std.ExtTreeSet.mem_diff_iff, ← and_or_left]
    exact and_iff_left (Classical.em _)

theorem unmodified_union_added : (between s t).unmodified ∪ (between s t).added = t :=
  Std.ExtTreeSet.ext_mem fun x => by
    simp only [between, Std.ExtTreeSet.mem_union_iff, Std.ExtTreeSet.mem_inter_iff,
      Std.ExtTreeSet.mem_diff_iff, and_comm (b := x ∈ t), ← and_or_left]
    exact and_iff_left (Classical.em _)

theorem between_self : between s s = oneSided s := by
  have hinter : s ∩ s = s := Std.ExtTreeSet.ext_mem fun x => by
    simp [Std.ExtTreeSet.mem_inter_iff]
  have hdiff : s \ s = ∅ := Std.ExtTreeSet.ext_mem fun x => by
    simp [Std.ExtTreeSet.mem_diff_iff]
  rw [between, oneSided, hinter, hdiff]

end PermissionSplit

end PolicyDelta
