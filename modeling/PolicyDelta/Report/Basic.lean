import PolicyDelta.Change.Json
import PolicyDelta.Session

/-! Reports: the changes of a session by families, with the numbers of each form, and the
diagnostics. -/

namespace PolicyDelta

/-- The changes of one family. -/
structure FamilyReport where
  family : RuleFamily
  /-- The number of changes of each form. -/
  stats : OrderedMap ChangeForm Int
  changes : List Change := []
deriving DecidableEq

def FamilyReport.hasChanges (f : FamilyReport) : Bool := !f.changes.isEmpty

/-- A report on two policies. -/
structure Report where
  base : String
  modified : String
  families : List FamilyReport
  diagnostics : List DefaultConflict := []
deriving DecidableEq

namespace Report

def ofChanges (family : RuleFamily) (changes : List Change) : FamilyReport :=
  { family
    stats := .ofList (ChangeForm.all.zip ((countForms changes).map Int.ofNat))
    changes }

def ofSession (s : Session) : Except SessionError Report :=
  s.result.map fun d =>
    { base := s.base.id
      modified := s.modified.id
      families := RuleFamily.all.map fun f => ofChanges f (d.changes f)
      diagnostics := d.diagnostics }

end Report

end PolicyDelta
