import PolicyDelta.Policy.Identity
import PolicyDelta.Text.Quoted

/-! The names of a policy and what they stand for. A name is looked up among the types first, then
among the aliases, then among the attributes. -/

namespace PolicyDelta

/-- What a name was expected to stand for. -/
inductive NameRole where
  | type
  | typeOrAttribute
  | objectClass
deriving DecidableEq

def NameRole.text : NameRole → String
  | type => "type"
  | typeOrAttribute => "type or attribute"
  | objectClass => "class"

/-- A name that does not stand for what was expected in the policy of an identity. -/
structure UnknownIdentifier where
  name : String
  role : NameRole
  policy : String
deriving DecidableEq

/-- The message for an unknown name; an empty identity is not mentioned. -/
def UnknownIdentifier.message (e : UnknownIdentifier) : String :=
  let place := if e.policy = "" then "" else s!" in policy {Text.quoted e.policy}"
  s!"Unknown {e.role.text} {Text.quoted e.name}{place}"

/-- What a name of a policy stands for. -/
inductive NameKind where
  | typeName
  | aliasName
  | attributeName
deriving DecidableEq

def NameKind.text : NameKind → String
  | typeName => "type"
  | aliasName => "alias"
  | attributeName => "attribute"

/-- A policy with its identity at hand, in which names are looked up. -/
structure Scope where
  policy : Policy
  id : String
  id_eq : id = policy.id
deriving DecidableEq

def Policy.scope (p : Policy) : Scope := ⟨p, p.id, rfl⟩

namespace Scope

/-- What a name stands for. -/
def kindOf (s : Scope) (name : String) : Except UnknownIdentifier NameKind :=
  if name ∈ s.policy.types then .ok .typeName
  else if name ∈ s.policy.aliases then .ok .aliasName
  else if name ∈ s.policy.attributes then .ok .attributeName
  else .error ⟨name, .typeOrAttribute, s.id⟩

/-- The type that a name stands for, by itself or as an alias. -/
def lookupType (s : Scope) (name : String) : Except UnknownIdentifier String :=
  if name ∈ s.policy.types then .ok name
  else
    match s.policy.aliases[name]? with
    | some actual =>
      if actual ∈ s.policy.types then .ok actual else .error ⟨name, .type, s.id⟩
    | none => .error ⟨name, .type, s.id⟩

def lookupClass (s : Scope) (name : String) : Except UnknownIdentifier String :=
  if name ∈ s.policy.classes then .ok name else .error ⟨name, .objectClass, s.id⟩

/-- The types that a name stands for: one type, or all members of an attribute. -/
def typesOf (s : Scope) (name : String) : Except UnknownIdentifier NameSet := do
  match ← s.kindOf name with
  | .typeName | .aliasName => pure {← s.lookupType name}
  | .attributeName =>
    let members := s.policy.attributes.getD name ∅
    match members.toList.find? (· ∉ s.policy.types) with
    | some member => throw ⟨member, .type, s.id⟩
    | none => pure members

end Scope

end PolicyDelta
