import PolicyDelta.Policy.Identity
import PolicyDelta.Validation.Container

/-! The diagnostic for rules of one policy that determine more than one default type at one key. -/

namespace PolicyDelta

/-- More than one default type at a key of one side. -/
structure DefaultConflict where
  side : String
  key : String
  /-- The default types in order. -/
  defaults : List String
deriving DecidableEq

namespace DefaultConflict

def text (c : DefaultConflict) : String :=
  "Conflicting default types \x7b " ++ " ".intercalate c.defaults ++ " \x7d" ++
    s!" for {c.key} in the {c.side} policy"

def toJson (c : DefaultConflict) : Json :=
  .object [("side", .text c.side), ("key", .text c.key), ("defaults", .ofNames c.defaults)]

open Check

def check : Json → Checked DefaultConflict :=
  fields .recordType fun ms => DefaultConflict.mk <$> field ms "side" string <*>
    field ms "key" string <*> field ms "defaults" names

end DefaultConflict

end PolicyDelta
