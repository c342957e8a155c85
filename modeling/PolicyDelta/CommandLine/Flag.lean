import PolicyDelta.Directory

/-! The flags of the command line and what can be wrong with its arguments. -/

namespace PolicyDelta.CommandLine

/-- The argument after which there are no flags. -/
def separatorText : String := "--"

/-- What an argument gives. -/
inductive Given (α : Type) where
  | value (a : α)
  /-- The argument reads as the separator and is dropped like one, so that nothing is left. -/
  | nothing
deriving DecidableEq

namespace Given

def ofText (s : String) : Given String :=
  if s = separatorText then nothing else value s

def map (f : α → β) : Given α → Given β
  | value a => value (f a)
  | nothing => nothing

/-- What is given, read. -/
def mapM? (f : α → Option β) : Given α → Option (Given β)
  | value a => (f a).map value
  | nothing => some nothing

end Given

/-- The flags. -/
inductive Flag where
  | help
  | version
  | verbose
  | verboseFilter
  | typeDelta
  | workers
  | format
  | output
  | fullReport
deriving DecidableEq, Repr

namespace Flag

def all : List Flag :=
  [help, version, verbose, verboseFilter, typeDelta, workers, format, output, fullReport]

/-- The spellings of a flag, a single letter first. -/
def spellings : Flag → List String
  | help => ["-h", "--help"]
  | version => ["-V", "--version"]
  | verbose => ["-v", "--verbose"]
  | verboseFilter => ["--verbose-filter"]
  | typeDelta => ["--type-diff"]
  | workers => ["--workers"]
  | format => ["--format"]
  | output => ["--output"]
  | fullReport => ["--full-report"]

/-- A flag that is followed by a value. No flag with a single letter is. -/
def takesValue : Flag → Bool
  | help | version | verbose | fullReport => false
  | verboseFilter | typeDelta | workers | format | output => true

/-- A flag with all its spellings. -/
def label (f : Flag) : String := "/".intercalate f.spellings

/-- How messages call the values of a flag. -/
def valueKind : Flag → String
  | verboseFilter => "_verbose_filter"
  | typeDelta => "Path"
  | workers => "_workers"
  | format => "ReportFormat"
  | output => "FileType('w', encoding='locale')"
  | help | version | verbose | fullReport => ""

/-- All spellings with their flags, in order. -/
def spelled : List (String × Flag) :=
  all.flatMap fun f => f.spellings.map (·, f)

def ofSpelling? (s : String) : Option Flag :=
  (spelled.find? (·.1 = s)).map Prod.snd

end Flag

/-- What is wrong with the arguments. -/
inductive UsageError where
  /-- An argument is the start of more than one spelling. -/
  | ambiguous (argument : String) (spellings : List String)
  /-- A value is attached to a flag that takes none. -/
  | ignoredValue (flag : Flag) (value : String)
  | missingValue (flag : Flag)
  | invalidValue (flag : Flag) (value : String)
  | cannotCreate (value : String) (e : FileFailure)
  | missingPaths (names : List String)
  | unrecognized (arguments : List String)
deriving DecidableEq

def UsageError.message : UsageError → String
  | ambiguous argument spellings =>
    s!"ambiguous option: {argument} could match " ++ ", ".intercalate spellings
  | ignoredValue flag value =>
    s!"argument {flag.label}: ignored explicit argument {Text.quoted value}"
  | missingValue flag => s!"argument {flag.label}: expected one argument"
  | invalidValue flag value =>
    s!"argument {flag.label}: invalid {flag.valueKind} value: {Text.quoted value}"
  | cannotCreate value e =>
    s!"argument {Flag.output.label}: can't open '{value}': {e.message}"
  | missingPaths names => "the following arguments are required: " ++ ", ".intercalate names
  | unrecognized arguments => "unrecognized arguments: " ++ " ".intercalate arguments

/-- Why a command line does not lead to a run. -/
inductive Stop where
  | help
  | version
  | usage (e : UsageError)
deriving DecidableEq

end PolicyDelta.CommandLine
