import PolicyDelta.Report.Basic

/-! Reports as plain text: a title, the two policies, a section for each family and a section of
diagnostics. Lines of a section are indented, and an empty line ends it. -/

namespace PolicyDelta

def RuleFamily.title : RuleFamily → String
  | av => "AV Rules"
  | te => "TE Rules"

/-- A line of a section. -/
def indented (line : String) : String := "    " ++ line

namespace FamilyReport

/-- The numbers of changes of each form; a form without a number has none. Numbers of more than
`Text.maxDigits` digits, which a call trace refuses, are not refused here. -/
def statsText (f : FamilyReport) : String :=
  ", ".intercalate <| ChangeForm.all.map fun form =>
    s!"{form.title} {(f.stats.get? form).getD 0}"

/-- A family is shown if it has changes or if the whole report is asked for. -/
def isShown (full : Bool) (f : FamilyReport) : Bool := full || f.hasChanges

/-- The lines of a family as they are made one after another. The line of a change may fail. -/
def lines (full : Bool) (f : FamilyReport) : List (Except MissingDefault String) :=
  if f.isShown full then
    .ok s!"{f.family.title} ({f.statsText})" ::
      (f.changes.map (fun c => indented <$> c.render) ++ [.ok ""])
  else []

end FamilyReport

namespace Report

/-- The families in their order; those of one family keep the report's order. -/
def familiesInOrder (r : Report) : List FamilyReport :=
  RuleFamily.all.flatMap fun family => r.families.filter (·.family = family)

def diagnosticLines (r : Report) : List String :=
  if r.diagnostics = [] then []
  else "Diagnostics" :: (r.diagnostics.map (indented ·.text) ++ [""])

def titleLines (r : Report) : List String :=
  ["SELinux Policy Rule Differences", indented s!"original={r.base} modified={r.modified}", ""]

def plainLines (full : Bool) (r : Report) : List (Except MissingDefault String) :=
  r.titleLines.map .ok ++ r.familiesInOrder.flatMap (·.lines full) ++ r.diagnosticLines.map .ok

end Report

end PolicyDelta
