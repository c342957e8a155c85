import PolicyDelta.Policy.Basic
import PolicyDelta.Validation.Container

/-! Reading policies from JSON. Fields that a model does not have are ignored. -/

namespace PolicyDelta

open Check

def RuleHead.check (ms : List (String × Json)) : Checked RuleHead :=
  RuleHead.mk <$> field ms "source" string <*> field ms "target" string <*>
    field ms "class" string <*> fieldOr ms "cond" none (nullable string) <*>
    fieldOr ms "branch" true bool <*> fieldOr ms "line" none (nullable integer)

def AvRule.check : Json → Checked AvRule :=
  fields .modelType fun ms => AvRule.mk <$> RuleHead.check ms <*>
    field ms "flavor" (oneOf .literalError AvFlavor.ofName?) <*> field ms "perms" nameSet

def TeRule.check : Json → Checked TeRule :=
  fields .modelType fun ms => TeRule.mk <$> RuleHead.check ms <*>
    field ms "flavor" (oneOf .literalError TeFlavor.ofName?) <*>
    field ms "default" string <*> fieldOr ms "name" none (nullable string)

def Policy.check : Json → Checked Policy :=
  fields .modelType fun ms => Policy.mk <$> fieldOr ms "identity" none (nullable string) <*>
    fieldOr ms "types" ∅ nameSet <*> fieldOr ms "aliases" ∅ (nameMap string) <*>
    fieldOr ms "attributes" ∅ (nameMap nameSet) <*> fieldOr ms "classes" ∅ (nameMap nameSet) <*>
    fieldOr ms "avrules" [] (items .tupleType AvRule.check) <*>
    fieldOr ms "terules" [] (items .tupleType TeRule.check)

end PolicyDelta
