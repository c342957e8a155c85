import PolicyDelta.DefaultConflict
import PolicyDelta.RuleKey

/-! Changes of rules. A change says at which key the policies differ, in which form, and what the
rules of the key grant or determine on each side. -/

namespace PolicyDelta

/-- The forms of a change. A change of the last two forms arises from a change of types or of the
members of attributes, not of rules. -/
inductive ChangeForm where
  | added
  | removed
  | modified
  | addType
  | removeType
deriving DecidableEq, Repr

namespace ChangeForm

def all : List ChangeForm := [added, removed, modified, addType, removeType]

def name : ChangeForm → String
  | added => "added"
  | removed => "removed"
  | modified => "modified"
  | addType => "add_type"
  | removeType => "remove_type"

def ofName? (s : String) : Option ChangeForm :=
  all.find? (·.name = s)

def title : ChangeForm → String
  | added => "Added"
  | removed => "Removed"
  | modified => "Modified"
  | addType => "Added Type"
  | removeType => "Removed Type"

def sigil : ChangeForm → String
  | added | addType => "+"
  | removed | removeType => "-"
  | modified => "*"

end ChangeForm

/-- What the changes of both families have. -/
structure ChangeHead where
  form : ChangeForm
  key : RuleKey
  /-- The types through which rules cover the key on one side only. -/
  membershipTypes : List String := []
deriving DecidableEq

/-- A change of access vector rules. -/
structure AvChange extends ChangeHead where
  unmodifiedPerms : List String := []
  addedPerms : List String := []
  removedPerms : List String := []
deriving DecidableEq

/-- A change of type enforcement rules. A side has no default type if it has no rule or if its
rules are in conflict. -/
structure TeChange extends ChangeHead where
  baseDefault : Option String := none
  modifiedDefault : Option String := none
  conflicts : List DefaultConflict := []
deriving DecidableEq

/-- A change of rules of either family. -/
inductive Change where
  | av (c : AvChange)
  | te (c : TeChange)
deriving DecidableEq

namespace Change

def head : Change → ChangeHead
  | av c => c.toChangeHead
  | te c => c.toChangeHead

def family : Change → RuleFamily
  | av _ => .av
  | te _ => .te

def form (c : Change) : ChangeForm := c.head.form

/-- The key of a change. -/
def key (c : Change) : RuleKey := c.head.key

end Change

end PolicyDelta
