import PolicyDelta.CommandLine.Flag
import PolicyDelta.CommandLine.Template
import PolicyDelta.Text.Blank

/-! The texts that the command line itself prints. -/

namespace PolicyDelta.CommandLine

def helpLines : List String := [
  "usage: sepoldiff [-h] [-V] [-v] [--verbose-filter VERBOSE_FILTER]",
  "                 [--type-diff TYPE_DIFF] [--workers WORKERS] [--format FORMAT]",
  "                 [--output OUTPUT] [--full-report]",
  "                 original modified",
  "",
  "Semantic difference of SELinux access vector and type enforcement rules between two policies",
  "",
  "options:",
  "  -h, --help            show this help message and exit",
  "  -V, --version         Show version",
  "  -v, --verbose         Verbose program output",
  "  --verbose-filter VERBOSE_FILTER",
  "                        Comma-separated list of loggers to set to DEBUG, " ++
    "or to another level with 'logger=LEVEL'.",
  "",
  "Policy options:",
  "  original              Original policy, either a JSON policy snapshot or a binary policy.",
  "                        Binary policies require setools.",
  "  modified              Modified policy, either a JSON policy snapshot or a binary policy.",
  "  --type-diff TYPE_DIFF",
  "                        JSON type and attribute diff of the two policies.",
  "                        Default: derived from the attribute membership of the policies.",
  "  --workers WORKERS     Number of threads used to build rule indexes.",
  "                        Default: 1.",
  "",
  "Report options:",
  "  --format FORMAT       Report format, possible values: plain, json",
  "                        Default: plain",
  "  --output OUTPUT       Output the report to this file.",
  "                        Default: stdout",
  "  --full-report         Output rule families without any differences as well. " ++
    "Applicable to plain report format."]

def helpText : String := String.join (helpLines.map (· ++ "\n"))

/-- A text with at most one empty line between others. -/
def squeezed : List Char → List Char
  | [] => []
  | c :: cs => if c = '\n' ∧ cs.take 2 = ['\n', '\n'] then squeezed cs else c :: squeezed cs

/-- The line of a version, which is given as a template. -/
def versionText (version : String) : Except TemplateError String := do
  let filled ← Template.fill version.toList
  pure (String.ofList (Text.trimmed (· == '\n') (squeezed filled) ++ ['\n']))

/-- What is printed before a command line stops. -/
def Stop.printed (version : String) : Stop → Except TemplateError String
  | help => .ok helpText
  | .version => versionText version
  | _ => .ok ""

/-- The exit code of a command line that stops. -/
def Stop.code : Stop → Nat
  | help | version => 0
  | usage _ => 2

def Stop.message : Stop → String
  | help | version => ""
  | usage e => e.message

end PolicyDelta.CommandLine
