import PolicyDelta.NameSet

/-! The comparison of two sets of permissions. -/

namespace PolicyDelta

/-- The permissions that two sets share and those that only one of them has. -/
structure PermissionSplit where
  unmodified : NameSet
  added : NameSet := ∅
  removed : NameSet := ∅
deriving DecidableEq

namespace PermissionSplit

def between (base modified : NameSet) : PermissionSplit :=
  ⟨base ∩ modified, modified \ base, base \ modified⟩

/-- A set that has nothing to be compared with. -/
def oneSided (perms : NameSet) : PermissionSplit :=
  { unmodified := perms }

end PermissionSplit

end PolicyDelta
