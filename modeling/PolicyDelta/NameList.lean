/-! Names in the order of their code points. Repeated names are kept. -/

namespace PolicyDelta

/-- Puts a name before the first one that is not smaller. -/
def insertName (x : String) : List String → List String
  | [] => [x]
  | y :: ys => if (compare x y).isLE then x :: y :: ys else y :: insertName x ys

def namesInOrder (names : List String) : List String :=
  names.foldr insertName []

theorem insertName_perm (x : String) (ys : List String) : (insertName x ys).Perm (x :: ys) := by
  induction ys with
  | nil => exact .refl _
  | cons y ys ih =>
    unfold insertName
    split
    · exact .refl _
    · exact (ih.cons y).trans (.swap x y ys)

theorem namesInOrder_perm (names : List String) : (namesInOrder names).Perm names := by
  induction names with
  | nil => exact .refl _
  | cons x xs ih => exact (insertName_perm x _).trans (ih.cons x)

theorem pairwise_insertName {x : String} {ys : List String}
    (h : ys.Pairwise fun a b => (compare a b).isLE) :
    (insertName x ys).Pairwise fun a b => (compare a b).isLE := by
  induction ys with
  | nil => exact List.pairwise_singleton _ _
  | cons y ys ih =>
    rw [List.pairwise_cons] at h
    unfold insertName
    split
    case isTrue hxy =>
      refine List.pairwise_cons.2 ⟨fun z hz => ?_, List.pairwise_cons.2 h⟩
      rcases List.mem_cons.1 hz with rfl | hz
      · exact hxy
      · exact Std.TransCmp.isLE_trans hxy (h.1 z hz)
    case isFalse hxy =>
      refine List.pairwise_cons.2 ⟨fun z hz => ?_, ih h.2⟩
      rcases List.mem_cons.1 ((insertName_perm x ys).mem_iff.1 hz) with rfl | hz
      · simp [Std.OrientedCmp.lt_of_not_isLE hxy]
      · exact h.1 z hz

theorem pairwise_namesInOrder (names : List String) :
    (namesInOrder names).Pairwise fun a b => (compare a b).isLE := by
  induction names with
  | nil => exact .nil
  | cons x xs ih => exact pairwise_insertName ih

end PolicyDelta
