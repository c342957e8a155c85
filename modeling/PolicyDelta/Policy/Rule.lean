import PolicyDelta.NameSet

/-! The rules of a policy: access vector rules, which grant or audit permissions of a source on
objects of a target, and type enforcement rules, which determine the default type of new objects.
A rule may belong to one branch of a conditional block. -/

namespace PolicyDelta

/-- The two families of rules. -/
inductive RuleFamily where
  | av
  | te
deriving DecidableEq, Repr

namespace RuleFamily

def all : List RuleFamily := [av, te]

def name : RuleFamily → String
  | av => "av"
  | te => "te"

def ofName? (s : String) : Option RuleFamily :=
  all.find? (·.name = s)

@[simp] theorem ofName?_name (f : RuleFamily) : ofName? f.name = some f := by
  cases f <;> rfl

end RuleFamily

/-- The kinds of access vector rules. -/
inductive AvFlavor where
  | allow
  | neverallow
  | auditallow
  | dontaudit
deriving DecidableEq, Repr

namespace AvFlavor

def all : List AvFlavor := [allow, neverallow, auditallow, dontaudit]

def name : AvFlavor → String
  | allow => "allow"
  | neverallow => "neverallow"
  | auditallow => "auditallow"
  | dontaudit => "dontaudit"

def ofName? (s : String) : Option AvFlavor :=
  all.find? (·.name = s)

theorem ofName?_name (f : AvFlavor) : ofName? f.name = some f := by
  cases f <;> rfl

theorem name_injective {x y : AvFlavor} (h : x.name = y.name) : x = y := by
  cases x <;> cases y <;> first | rfl | exact absurd h (by decide)

end AvFlavor

/-- The kinds of type enforcement rules. -/
inductive TeFlavor where
  | typeTransition
  | typeChange
  | typeMember
deriving DecidableEq, Repr

namespace TeFlavor

def all : List TeFlavor := [typeTransition, typeChange, typeMember]

def name : TeFlavor → String
  | typeTransition => "type_transition"
  | typeChange => "type_change"
  | typeMember => "type_member"

def ofName? (s : String) : Option TeFlavor :=
  all.find? (·.name = s)

theorem ofName?_name (f : TeFlavor) : ofName? f.name = some f := by
  cases f <;> rfl

theorem name_injective {x y : TeFlavor} (h : x.name = y.name) : x = y := by
  cases x <;> cases y <;> first | rfl | exact absurd h (by decide)

end TeFlavor

/-- What the rules of both families have. Source and target name a type, an alias or an attribute;
the target may also be `self`. -/
structure RuleHead where
  source : String
  target : String
  objectClass : String
  cond : Option String := none
  /-- The branch of the conditional block; without a condition it has no meaning. -/
  branch : Bool := true
  line : Option Int := none
deriving DecidableEq

/-- An access vector rule. -/
structure AvRule extends RuleHead where
  flavor : AvFlavor
  perms : NameSet
deriving DecidableEq

/-- A type enforcement rule; `name` restricts it to new objects of one file name. -/
structure TeRule extends RuleHead where
  flavor : TeFlavor
  default : String
  name : Option String := none
deriving DecidableEq

/-- A rule of either family. -/
inductive Rule where
  | av (r : AvRule)
  | te (r : TeRule)
deriving DecidableEq

/-- The target that stands for the source. -/
def selfTarget : String := "self"

/-- The word for a branch. -/
def branchText (branch : Bool) : String := if branch then "true" else "false"

/-- The condition and the branch of a rule, if it has them. -/
def RuleHead.condText (r : RuleHead) : String :=
  match r.cond with
  | none => ""
  | some c => s!" [cond {c}: {branchText r.branch}]"

/-- The file name of a rule or a key, if it has one. -/
def fileNameText : Option String → String
  | none => ""
  | some n => s!" \"{n}\""

/-- The text of a rule; its permissions stand in order. -/
def AvRule.text (r : AvRule) : String :=
  s!"{r.flavor.name} {r.source} {r.target} : {r.objectClass} " ++
    "\x7b " ++ " ".intercalate r.perms.toList ++ " \x7d;" ++ r.condText

def TeRule.text (r : TeRule) : String :=
  s!"{r.flavor.name} {r.source} {r.target} : {r.objectClass}{fileNameText r.name} {r.default};" ++
    r.condText

namespace Rule

def head : Rule → RuleHead
  | av r => r.toRuleHead
  | te r => r.toRuleHead

def av? : Rule → Option AvRule
  | av r => some r
  | te _ => none

def te? : Rule → Option TeRule
  | av _ => none
  | te r => some r

def family : Rule → RuleFamily
  | av _ => .av
  | te _ => .te

def kind : Rule → String
  | av r => r.flavor.name
  | te r => r.flavor.name

/-- The permissions of a rule; a type enforcement rule has none. -/
def perms : Rule → NameSet
  | av r => r.perms
  | te _ => ∅

def fileName : Rule → Option String
  | av _ => none
  | te r => r.name

/-- The default type of a type enforcement rule, as the rule names it. -/
def default? : Rule → Option String
  | av _ => none
  | te r => some r.default

def text : Rule → String
  | av r => r.text
  | te r => r.text

end Rule

end PolicyDelta
