import PolicyDelta.Change.Basic
import PolicyDelta.Policy.Identity

/-! Changes in JSON. The field `family` tells the two kinds of changes apart. -/

namespace PolicyDelta

open Json (ofName? ofNames)

def Json.ofBool? : Option Bool → Json
  | none => .null
  | some b => .bool b

def RuleKey.toJson (k : RuleKey) : Json :=
  .object [
    ("kind", .text k.kind),
    ("class", .text k.objectClass),
    ("source", .text k.source),
    ("target", .text k.target),
    ("cond", ofName? k.cond),
    ("branch", .ofBool? k.branch),
    ("name", ofName? k.name)]

def ChangeHead.members (h : ChangeHead) : List (String × Json) :=
  [("form", .text h.form.name),
    ("key", h.key.toJson),
    ("membership_types", ofNames h.membershipTypes)]

def Change.toJson : Change → Json
  | .av c =>
    .object (c.members ++ [
      ("family", .text "av"),
      ("unmodified_perms", ofNames c.unmodifiedPerms),
      ("added_perms", ofNames c.addedPerms),
      ("removed_perms", ofNames c.removedPerms)])
  | .te c =>
    .object (c.members ++ [
      ("family", .text "te"),
      ("original_default", ofName? c.baseDefault),
      ("modified_default", ofName? c.modifiedDefault),
      ("conflicts", .array (c.conflicts.map DefaultConflict.toJson))])

open Check

def ChangeHead.checkMembers (ms : List (String × Json)) : Checked ChangeHead :=
  ChangeHead.mk <$> field ms "form" (oneOf .enumError ChangeForm.ofName?) <*>
    field ms "key" RuleKey.check <*> fieldOr ms "membership_types" [] names

/-- What both kinds of changes have, by itself. -/
def ChangeHead.check : Json → Checked ChangeHead :=
  fields .modelType ChangeHead.checkMembers

def AvChange.checkMembers (ms : List (String × Json)) : Checked AvChange :=
  AvChange.mk <$> ChangeHead.checkMembers ms <*> fieldOr ms "unmodified_perms" [] names <*>
    fieldOr ms "added_perms" [] names <*> fieldOr ms "removed_perms" [] names

def TeChange.checkMembers (ms : List (String × Json)) : Checked TeChange :=
  TeChange.mk <$> ChangeHead.checkMembers ms <*>
    fieldOr ms "original_default" none (nullable string) <*>
    fieldOr ms "modified_default" none (nullable string) <*>
    fieldOr ms "conflicts" [] (items .tupleType DefaultConflict.check)

def Change.check : Json → Checked Change :=
  fields .mapType fun ms =>
    match Json.member? "family" ms with
    | none => .fail .tagMissing
    | some (.text "av") => (Change.av <$> AvChange.checkMembers ms).inside (.field "av")
    | some (.text "te") => (Change.te <$> TeChange.checkMembers ms).inside (.field "te")
    | some _ => .fail .tagInvalid

end PolicyDelta
