/-! The two sides of a comparison. -/

namespace PolicyDelta

/-- The policy that is compared against, or the modified one. -/
inductive Side where
  | base
  | modified
deriving DecidableEq, Repr

namespace Side

def all : List Side := [base, modified]

def name : Side → String
  | base => "original"
  | modified => "modified"

def ofName? (s : String) : Option Side :=
  all.find? (·.name = s)

def other : Side → Side
  | base => modified
  | modified => base

end Side

end PolicyDelta
