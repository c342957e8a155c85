import PolicyDelta.Log.Level
import PolicyDelta.Report.Json
import PolicyDelta.Report.Plain

/-! The formats of a report. -/

namespace PolicyDelta

/-- The format of a report. -/
inductive ReportFormat where
  | plain
  | json
deriving DecidableEq, Repr

namespace ReportFormat

def all : List ReportFormat := [plain, json]

def name : ReportFormat → String
  | plain => "plain"
  | json => "json"

def ofName? (s : String) : Option ReportFormat :=
  all.find? (·.name = s)

def unknownMessage (name : String) : String :=
  s!"Invalid report format {Text.quoted name}"

end ReportFormat

/-- How a report is written. -/
structure ReportStyle where
  format : ReportFormat := .plain
  /-- Families without changes are shown too. -/
  full : Bool := false
  logLevel : Nat := Log.info
deriving DecidableEq

namespace Report

/-- JSON stands in one line unless the run tells everything. -/
def layout (style : ReportStyle) : Json.Layout :=
  if style.logLevel ≤ Log.debug then .indented else .compact

/-- The lines of a report as they are made one after another; a document in JSON counts as one. -/
def lines (style : ReportStyle) (r : Report) : List (Except MissingDefault String) :=
  match style.format with
  | .plain => r.plainLines style.full
  | .json => [.ok (Json.render (layout style) r.toJson)]

/-- The text of lines, each of which ends with a line break. -/
def textOfLines (lines : List String) : String := String.join (lines.map (· ++ "\n"))

/-- The text of a report, if all its lines can be made. -/
def text (style : ReportStyle) (r : Report) : Except MissingDefault String :=
  ((r.lines style).mapM id).map textOfLines

def event (style : ReportStyle) (r : Report) : Event :=
  match style.format with
  | .plain => .writingPlain
  | .json => .writingJson r.families.length

end Report

end PolicyDelta
