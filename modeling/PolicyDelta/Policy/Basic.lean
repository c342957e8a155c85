import PolicyDelta.Policy.Rule

/-! A policy, as far as the difference of rules needs it: its types, the other names of types, the
attributes with their member types, the object classes with their permissions, and the rules. -/

namespace PolicyDelta

/-- A policy. Its identity may be given; otherwise it follows from the content. -/
structure Policy where
  identity : Option String := none
  types : NameSet := ∅
  /-- The type that each alias stands for. -/
  aliases : NameMap String := ∅
  /-- The members of each attribute. -/
  attributes : NameMap NameSet := ∅
  /-- The permissions of each object class. -/
  classes : NameMap NameSet := ∅
  avRules : List AvRule := []
  teRules : List TeRule := []
deriving DecidableEq

namespace Policy

def rules (p : Policy) : RuleFamily → List Rule
  | .av => p.avRules.map .av
  | .te => p.teRules.map .te

end Policy

end PolicyDelta
