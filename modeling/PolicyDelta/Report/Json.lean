import PolicyDelta.Report.Basic

/-! Reports in JSON. -/

namespace PolicyDelta

def FamilyReport.toJson (f : FamilyReport) : Json :=
  .object [
    ("family", .text f.family.name),
    ("stats", .object (f.stats.pairs.map fun p => (p.1.name, .integer p.2))),
    ("entries", .array (f.changes.map Change.toJson))]

def Report.toJson (r : Report) : Json :=
  .object [
    ("original", .text r.base),
    ("modified", .text r.modified),
    ("families", .array (r.families.map FamilyReport.toJson)),
    ("diagnostics", .array (r.diagnostics.map DefaultConflict.toJson))]

open Check

def ChangeForm.checkName (s : String) : Checked ChangeForm :=
  oneOf .enumError ofName? (.text s)

def FamilyReport.check : Json → Checked FamilyReport :=
  fields .modelType fun ms => FamilyReport.mk <$>
    field ms "family" (oneOf .enumError RuleFamily.ofName?) <*>
    field ms "stats" (orderedMap ChangeForm.checkName integer) <*>
    fieldOr ms "entries" [] (items .listType Change.check)

def Report.check : Json → Checked Report :=
  fields .modelType fun ms => Report.mk <$> field ms "original" string <*>
    field ms "modified" string <*> field ms "families" (items .listType FamilyReport.check) <*>
    fieldOr ms "diagnostics" [] (items .listType DefaultConflict.check)

end PolicyDelta
