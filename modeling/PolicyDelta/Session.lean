import PolicyDelta.Change.Render
import PolicyDelta.Classification
import PolicyDelta.RuleIndex.Build

/-! Sessions. A session compares two policies once, when it is built, and answers from the result
until it is closed; a closed session is never opened again. -/

namespace PolicyDelta

/-- The differences of two policies. -/
structure Differences where
  avChanges : List Change
  teChanges : List Change
  diagnostics : List DefaultConflict
deriving DecidableEq

def Differences.changes (d : Differences) : RuleFamily → List Change
  | .av => d.avChanges
  | .te => d.teChanges

def countForms (changes : List Change) : List Nat :=
  ChangeForm.all.map fun form => changes.countP (·.form = form)

/-- Why a session does not answer. -/
inductive SessionError where
  /-- The session is not built or has been closed. -/
  | closed
  | unknownFamily (name : String)
  | outOfRange (family : RuleFamily) (index : Int) (size : Nat)
deriving DecidableEq

/-- The message of a session that does not answer. -/
def SessionError.message : SessionError → String
  | closed => "The diff session is not built or has been closed"
  | unknownFamily name => s!"Invalid rule family {Text.quoted name}"
  | outOfRange family index size =>
    s!"{family.name} rule difference {index} out of range 0..{size}"

/-- A comparison of two policies; the result is there while the session is open. -/
structure Session where
  base : Scope
  modified : Scope
  typeDelta : TypeDelta
  result? : Option Differences := none
deriving DecidableEq

namespace Session

/-- The classifier of a family's indexes and its changes. -/
def classified (base modified : RuleIndex) (eq : Equivalence) (d : TypeDelta) :
    Scan (List Change) := do
  let found ← Scan.ofExcept (Classifier.changes ⟨base, modified, eq, d⟩)
  Scan.tell (.changesFound found.length base.family)
  pure found

/-- The differences of two policies; rules are indexed family by family, the base side first. -/
def differences (base modified : Scope) (d : TypeDelta) (workers : Int) :
    Scan Differences := do
  Scan.tell (.comparing base.id modified.id)
  let eq ← Scan.ofExcept (Equivalence.make base modified d)
  let avBase ← RuleIndex.build eq .av .base workers
  let avModified ← RuleIndex.build eq .av .modified workers
  let teBase ← RuleIndex.build eq .te .base workers
  let teModified ← RuleIndex.build eq .te .modified workers
  let avChanges ← classified avBase avModified eq d
  let teChanges ← classified teBase teModified eq d
  let diagnostics := avBase.conflicts ++ avModified.conflicts ++ teBase.conflicts ++
    teModified.conflicts
  diagnostics.forM fun c => Scan.tell (.conflict c)
  pure ⟨avChanges, teChanges, diagnostics⟩

/-- A session that is not built. -/
def unbuilt (base modified : Policy) (d : TypeDelta) : Session :=
  { base := base.scope, modified := modified.scope, typeDelta := d }

/-- A built session, or the first unknown name; beside it what there is to tell. -/
def build (base modified : Policy) (d : TypeDelta) (workers : Int) :
    Except UnknownIdentifier Session × List Event :=
  let s := unbuilt base modified d
  let (result, w) := (differences s.base s.modified d workers).run.run {}
  (result.map fun found => { s with result? := found }, w.events.reverse)

def isOpen (s : Session) : Bool := s.result?.isSome

def result (s : Session) : Except SessionError Differences :=
  match s.result? with
  | some d => .ok d
  | none => .error .closed

def diagnostics (s : Session) : Except SessionError (List DefaultConflict) :=
  s.result.map (·.diagnostics)

/-- The changes of a family in an open session. -/
def changes (s : Session) (family : RuleFamily) : Except SessionError (List Change) :=
  s.result.map (·.changes family)

/-- The changes of the family of a name; the name is looked at first. -/
def changesNamed (s : Session) (family : String) : Except SessionError (List Change) :=
  match RuleFamily.ofName? family with
  | some f => s.changes f
  | none => .error (.unknownFamily family)

/-- A change of a family by its number, which starts at zero. -/
def changeAt (s : Session) (family : String) (index : Int) : Except SessionError Change :=
  match RuleFamily.ofName? family with
  | none => .error (.unknownFamily family)
  | some f => do
    let changes ← s.changes f
    match index with
    | .ofNat i =>
      match changes[i]? with
      | some c => pure c
      | none => throw (.outOfRange f index changes.length)
    | .negSucc _ => throw (.outOfRange f index changes.length)

/-- The numbers of changes of each form in a family. -/
def stats (s : Session) (family : String) : Except SessionError (List Nat) :=
  (s.changesNamed family).map countForms

/-- The line of a change, while the session is open. -/
def render (s : Session) (c : Change) : Except SessionError (Except MissingDefault String) :=
  s.result.map fun _ => c.render

/-- A copy of a change that is kept beyond the session; the session has to be open to give it. -/
def materialize (s : Session) (c : Change) : Except SessionError Change :=
  s.result.map fun _ => c

def close (s : Session) : Session :=
  { s with result? := none }

/-- The start of a block that closes the session at its end. -/
def enter (s : Session) : Except SessionError Session :=
  s.result.map fun _ => s

end Session

end PolicyDelta
