import PolicyDelta.DefaultConflict
import PolicyDelta.Log.Level
import PolicyDelta.Policy.Scope
import PolicyDelta.Side

/-! What a run tells while it goes on: each event has a level, the logger that it belongs to and a
message. -/

namespace PolicyDelta

/-- An event of a run. -/
inductive Event where
  | loadingPolicy (path : String)
  | loadingTypeDelta (path : String)
  | comparing (base modified : String)
  | emptyAttribute (name policy : String)
  | emptyRule (rule : String)
  | indexBuilt (side : Side) (family : RuleFamily) (size : Nat)
  | changesFound (count : Nat) (family : RuleFamily)
  | conflict (c : DefaultConflict)
  | writingPlain
  | writingJson (families : Nat)
  | failed (e : UnknownIdentifier)
deriving DecidableEq

namespace Event

/-- How weighty an event is. -/
inductive Severity where
  | verbose
  | info
  | warning
  | error
deriving DecidableEq

def Severity.level : Severity → Nat
  | verbose => 15
  | info => 20
  | warning => 30
  | error => 40

def Severity.name : Severity → String
  | verbose => "VERBOSE"
  | info => "INFO"
  | warning => "WARNING"
  | error => "ERROR"

def severity : Event → Severity
  | emptyAttribute .. | emptyRule .. | indexBuilt .. => .verbose
  | conflict .. => .warning
  | failed .. => .error
  | _ => .info

def logger : Event → String
  | loadingPolicy .. | loadingTypeDelta .. => "sepoldiff.policy"
  | comparing .. | changesFound .. | conflict .. => "sepoldiff.diff.session"
  | emptyAttribute .. => "sepoldiff.diff.expand"
  | emptyRule .. | indexBuilt .. => "sepoldiff.diff.index"
  | writingPlain => "sepoldiff.report.plain"
  | writingJson .. => "sepoldiff.report.json"
  | failed .. => "sepoldiff"

def message : Event → String
  | loadingPolicy path => s!"Loading policy snapshot from {path}"
  | loadingTypeDelta path => s!"Loading type diff from {path}"
  | comparing o m => s!"Computing rule differences between policies {o} and {m}"
  | emptyAttribute name policy =>
    s!"Attribute {Text.quoted name} has no members in policy {policy}"
  | emptyRule rule => s!"Rule {rule} expands to no type pairs"
  | indexBuilt side family size => s!"Built {side.name} {family.name} rule index with {size} keys"
  | changesFound count family => s!"Found {count} {family.name} rule differences"
  | conflict c => c.text
  | writingPlain => "Generating plain text report"
  | writingJson families => s!"Generating JSON report with {families} rule families"
  | failed e => s!"Failed to compute policy rule differences: {e.message}"

def line (e : Event) : String :=
  s!"{e.severity.name}:{e.logger}:{e.message}\n"

/-- An event that the settings let through. -/
def isShown (settings : Log.Settings) (e : Event) : Bool :=
  settings.effective e.logger ≤ e.severity.level

def log (settings : Log.Settings) (events : List Event) : String :=
  String.join ((events.filter (isShown settings)).map line)

end Event

end PolicyDelta
