import Std.Data.ExtTreeSet
import Std.Data.ExtTreeMap

/-! Finite sets of names and maps from names, ordered by code points. Two of them are equal exactly
when they have the same members. -/

namespace PolicyDelta

/-- A finite set of names. -/
abbrev NameSet := Std.ExtTreeSet String

/-- A finite map from names. -/
abbrev NameMap (α : Type) := Std.ExtTreeMap String α

namespace NameSet

def map (f : String → String) (s : NameSet) : NameSet :=
  Std.ExtTreeSet.ofList (s.toList.map f)

theorem mem_map {f : String → String} {s : NameSet} {x : String} :
    x ∈ s.map f ↔ ∃ y ∈ s, f y = x := by
  simp [map, Std.ExtTreeSet.mem_ofList]

end NameSet

end PolicyDelta
