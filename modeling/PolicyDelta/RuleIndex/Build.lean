import PolicyDelta.RuleIndex.Basic
import PolicyDelta.Shards

/-! Building indexes. Each rule is checked, expanded and added at the key of each of its pairs; the
rules may be split among workers, whose indexes are joined. -/

namespace PolicyDelta

/-- What lasts from rule to rule: an expander for each side and the events so far, the last one
first. -/
structure Workspace where
  base : Expander := {}
  modified : Expander := {}
  events : List Event := []

namespace Workspace

def expander (w : Workspace) : Side → Expander
  | .base => w.base
  | .modified => w.modified

/-- The workspace with another expander on a side. -/
def withExpander (w : Workspace) (x : Expander) : Side → Workspace
  | .base => { w with base := x }
  | .modified => { w with modified := x }

def tell (w : Workspace) (events : List Event) : Workspace :=
  { w with events := events.reverse ++ w.events }

end Workspace

/-- A computation that stops at the first unknown name; what it told before is kept. -/
abbrev Scan := ExceptT UnknownIdentifier (StateM Workspace)

namespace Scan

/-- An outcome as a computation that tells nothing. -/
def ofExcept : Except UnknownIdentifier α → Scan α
  | .ok a => pure a
  | .error e => throw e

def tell (e : Event) : Scan Unit :=
  modify (·.tell [e])

/-- The pairs of types of a source and a target of a side's policy. -/
def pairs (s : Scope) (side : Side) (source target : String) : Scan (List TypePair) := do
  let w ← get
  let (result, x, told) := (w.expander side).pairs s source target
  set ((w.withExpander x side).tell told)
  ofExcept result

end Scan

namespace RuleIndex

/-- The canonical default type of a rule. -/
def resolvedDefault (eq : Equivalence) (side : Side) (rule : Rule) :
    Except UnknownIdentifier (Option String) :=
  match rule.default? with
  | none => .ok none
  | some d => do
    let type ← (eq.scope side).lookupType d
    some <$> eq.canonicalType side type

/-- The check of a rule's class; a policy without classes leaves it open. -/
def checkClass (s : Scope) (rule : Rule) : Except UnknownIdentifier Unit :=
  if s.policy.classes.isEmpty then .ok ()
  else do
    let _ ← s.lookupClass rule.head.objectClass
    pure ()

/-- The index with a rule added at its key at each pair. -/
def addPairs (eq : Equivalence) (rule : Rule) (default : Option String) (ix : RuleIndex)
    (pairs : List TypePair) : Except UnknownIdentifier RuleIndex :=
  pairs.foldlM (fun ix p => do
    let k ← eq.keyOf ix.side rule p.1 p.2
    pure (ix.insert k rule default)) ix

def addRule (eq : Equivalence) (ix : RuleIndex) (rule : Rule) : Scan RuleIndex := do
  let s := eq.scope ix.side
  Scan.ofExcept (checkClass s rule)
  let default ← Scan.ofExcept (resolvedDefault eq ix.side rule)
  let coverage ← Scan.ofExcept (eq.coverageOf ix.side rule)
  let pairs ← Scan.pairs s ix.side rule.head.source rule.head.target
  if pairs.isEmpty then Scan.tell (.emptyRule rule.text)
  Scan.ofExcept <|
    addPairs eq rule default { ix with coverage := ix.coverage.insert coverage } pairs

def ofRules (eq : Equivalence) (family : RuleFamily) (side : Side) (rules : List Rule) :
    Scan RuleIndex :=
  rules.foldlM (addRule eq) { family, side }

/-- The index of a family of rules of a side's policy, split among workers. -/
def build (eq : Equivalence) (family : RuleFamily) (side : Side) (workers : Int) :
    Scan RuleIndex := do
  let parts ← (shards ((eq.scope side).policy.rules family) workers).mapM (ofRules eq family side)
  let ix := parts.tail.foldl join (parts.headD { family, side })
  Scan.tell (.indexBuilt side family ix.size)
  pure ix

end RuleIndex

end PolicyDelta
