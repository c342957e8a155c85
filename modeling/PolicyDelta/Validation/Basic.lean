/-! Checking JSON values against a model. A check reports every issue of a value and not only the
first; each issue has the path from the outermost value to the place where it arose. -/

namespace PolicyDelta

/-- A step from a value to a part of it. -/
inductive PathStep where
  | field (name : String)
  | index (i : Nat)
deriving DecidableEq

/-- What is wrong at a place. -/
inductive IssueKind where
  | jsonInvalid
  | missing
  | stringType
  | boolType
  | boolParsing
  | intType
  | intParsing
  | intParsingSize
  | intFromFloat
  | finiteNumber
  | literalError
  | enumError
  | setType
  | tupleType
  | listType
  | mapType
  | modelType
  | recordType
  | tagMissing
  | tagInvalid
deriving DecidableEq

/-- An issue and its place. -/
structure Issue where
  path : List PathStep
  kind : IssueKind
deriving DecidableEq

/-- A checked value or all its issues, in the order of the value's parts. -/
inductive Checked (α : Type u) where
  | valid (value : α)
  | invalid (issues : List Issue)

namespace Checked

/-- The outcome with a single issue at the value itself. -/
def fail (kind : IssueKind) : Checked α :=
  .invalid [⟨[], kind⟩]

def map (f : α → β) : Checked α → Checked β
  | valid a => valid (f a)
  | invalid is => invalid is

/-- Two outcomes together; the issues of the first come first. -/
def both : Checked α → Checked β → Checked (α × β)
  | valid a, valid b => valid (a, b)
  | valid _, invalid js => invalid js
  | invalid is, valid _ => invalid is
  | invalid is, invalid js => invalid (is ++ js)

instance : Applicative Checked where
  pure := valid
  map := Checked.map
  seq f x := (f.both (x ())).map fun p => p.1 p.2

/-- The outcome of a part, seen from the whole. -/
def inside (step : PathStep) : Checked α → Checked α
  | valid a => valid a
  | invalid is => invalid (is.map fun i => { i with path := step :: i.path })

def toExcept : Checked α → Except (List Issue) α
  | valid a => .ok a
  | invalid is => .error is

@[simp] theorem map_valid (f : α → β) (a : α) : f <$> valid a = valid (f a) := rfl

@[simp] theorem seq_valid (f : α → β) (a : α) : (valid f <*> valid a) = valid (f a) := rfl

@[simp] theorem inside_valid (step : PathStep) (a : α) : (valid a).inside step = valid a := rfl

end Checked

end PolicyDelta
