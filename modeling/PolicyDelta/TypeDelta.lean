import PolicyDelta.Policy.Basic
import PolicyDelta.Validation.Container

/-! The difference of the types and attributes of two policies. Types are given by canonical names:
a renamed type of the base policy is known by its name in the modified one. -/

namespace PolicyDelta

/-- New names of types, by their old ones. -/
abbrev Renames := OrderedMap String String

/-- The canonical name of a type of the base policy. -/
def Renames.canonical (renames : Renames) (name : String) : String :=
  (renames.get? name).getD name

/-- The members that an attribute gained and lost. -/
structure MembershipDelta where
  added : NameSet := ∅
  removed : NameSet := ∅
deriving DecidableEq

/-- The difference of types and attributes. -/
structure TypeDelta where
  renames : Renames := ∅
  addedTypes : NameSet := ∅
  removedTypes : NameSet := ∅
  /-- The attributes whose members differ. -/
  attributes : NameMap MembershipDelta := ∅
  /-- The names of conditions in the modified policy, by their names in the base policy. -/
  conditionals : NameMap String := ∅
deriving DecidableEq

namespace TypeDelta

/-- The members that an attribute gained. -/
def attributeAdded (d : TypeDelta) (a : String) : NameSet :=
  match d.attributes[a]? with
  | some m => m.added
  | none => ∅

/-- The members that an attribute lost. -/
def attributeRemoved (d : TypeDelta) (a : String) : NameSet :=
  match d.attributes[a]? with
  | some m => m.removed
  | none => ∅

/-- The change of an attribute's members, unless there is none. -/
def membershipDelta? (before after : NameSet) : Option MembershipDelta :=
  if before = after then none else some ⟨after \ before, before \ after⟩

/-- The difference of two policies whose types correspond by name or by a renaming. -/
def between (base modified : Policy) (renames : Renames) : TypeDelta :=
  let baseTypes := base.types.map renames.canonical
  let attributes := base.attributes.keys ++ modified.attributes.keys
  { renames
    addedTypes := modified.types \ baseTypes
    removedTypes := baseTypes \ modified.types
    attributes := Std.ExtTreeMap.ofList <| attributes.filterMap fun a =>
      let before := (base.attributes.getD a ∅).map renames.canonical
      let after := modified.attributes.getD a ∅
      (membershipDelta? before after).map (a, ·) }

end TypeDelta

open Check

def MembershipDelta.check : Json → Checked MembershipDelta :=
  fields .modelType fun ms => MembershipDelta.mk <$> fieldOr ms "added" ∅ nameSet <*>
    fieldOr ms "removed" ∅ nameSet

def TypeDelta.check : Json → Checked TypeDelta :=
  fields .modelType fun ms => TypeDelta.mk <$>
    fieldOr ms "renames" ∅ (orderedMap .valid string) <*>
    fieldOr ms "added_types" ∅ nameSet <*> fieldOr ms "removed_types" ∅ nameSet <*>
    fieldOr ms "attributes" ∅ (nameMap MembershipDelta.check) <*>
    fieldOr ms "conditionals" ∅ (nameMap string)

end PolicyDelta
