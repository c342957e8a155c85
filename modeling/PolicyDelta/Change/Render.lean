import PolicyDelta.Change.Basic
import PolicyDelta.NameList
import PolicyDelta.Side

/-! The line of a change in a report: a sign, the rule with what it grants or determines, and notes
in square brackets. -/

namespace PolicyDelta

/-- A change of type enforcement rules that shows a side without default type or conflict. -/
structure MissingDefault where
  key : RuleKey
  side : Side
deriving DecidableEq

def MissingDefault.message (e : MissingDefault) : String :=
  s!"Diff entry {e.key.text} has no {e.side.name} default type"

/-- Names in order in braces. -/
def namesBlock (names : List String) : String :=
  match namesInOrder names with
  | [] => "\x7b \x7d"
  | names => "\x7b " ++ " ".intercalate names ++ " \x7d"

/-- The notes on the condition and on the types of a change. -/
def ChangeHead.annotations (h : ChangeHead) : List String :=
  let cond := match h.key.cond with
    | none => []
    | some c => [s!"[cond {c}: {branchText (h.key.branch == some true)}]"]
  let types := " ".intercalate h.membershipTypes
  let membership := match h.form with
    | .addType => [s!"[+type {types}]"]
    | .removeType => [s!"[-type {types}]"]
    | _ => []
  cond ++ membership

/-- The line of a change with a given body and further notes. -/
def ChangeHead.line (h : ChangeHead) (body : String) (notes : List String) : String :=
  let k := h.key
  " ".intercalate
    (s!"{h.form.sigil} {k.kind} {k.source} {k.target} : {k.objectClass}{body};" ::
      (h.annotations ++ notes))

def AvChange.body (c : AvChange) : String :=
  let unmodified := " " ++ namesBlock c.unmodifiedPerms
  match c.form with
  | .modified =>
    let added := if c.addedPerms = [] then [] else ["+ " ++ namesBlock c.addedPerms]
    let removed := if c.removedPerms = [] then [] else ["- " ++ namesBlock c.removedPerms]
    let changes := " ".intercalate (added ++ removed)
    s!"{unmodified} ({changes})"
  | _ => unmodified

/-- The default type of a side, or those in conflict. -/
def TeChange.defaultText (c : TeChange) (side : Side) : Except MissingDefault String :=
  let default := match side with
    | .base => c.baseDefault
    | .modified => c.modifiedDefault
  match default with
  | some d => .ok d
  | none =>
    match c.conflicts.find? (·.side = side.name) with
    | some conflict => .ok (namesBlock conflict.defaults)
    | none => .error ⟨c.key, side⟩

/-- The file name and the default types of a change. -/
def TeChange.body (c : TeChange) : Except MissingDefault String := do
  let default ← match c.form with
    | .added | .addType => c.defaultText .modified
    | .removed | .removeType => c.defaultText .base
    | .modified => do
      let b ← c.defaultText .base
      let m ← c.defaultText .modified
      pure s!"{b} -> {m}"
  pure s!"{fileNameText c.key.name} {default}"

def AvChange.render (c : AvChange) : String :=
  c.line c.body []

def TeChange.render (c : TeChange) : Except MissingDefault String := do
  let body ← c.body
  pure (c.line body (if c.conflicts = [] then [] else ["[conflicting defaults]"]))

def Change.render : Change → Except MissingDefault String
  | .av c => .ok c.render
  | .te c => c.render

end PolicyDelta
