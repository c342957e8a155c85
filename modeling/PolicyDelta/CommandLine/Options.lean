import PolicyDelta.CommandLine.Action
import PolicyDelta.Log.Level
import PolicyDelta.Report.Format
import PolicyDelta.Text.Blank
import PolicyDelta.Text.Integer

/-! Reading a command line. Actions are taken in order, so the file for the report is created as
soon as its flag is met, and what comes first decides which error is told. -/

namespace PolicyDelta.CommandLine

/-- What the flags of a command line say. -/
structure Options where
  verbose : Bool := false
  /-- The levels of single loggers. -/
  filters : OrderedMap String Nat := ∅
  typeDelta : Option (Given String) := none
  workers : Given Int := .value 1
  format : Given ReportFormat := .value .plain
  /-- The file for the report, instead of the standard output. -/
  output : Option (Given String) := none
  full : Bool := false
deriving DecidableEq

/-- The level of the root logger. -/
def Options.logLevel (o : Options) : Nat :=
  if o.verbose then Log.debug else Log.info

/-- A run that a command line asks for. -/
structure Invocation where
  options : Options
  base : Given String
  modified : Given String
deriving DecidableEq

/-- One item of a list of loggers: a name with a level, or alone for the level of everything. -/
def filterOfItem? (item : List Char) : Option (String × Nat) :=
  let (name, level) := Text.cut '=' item
  let name := String.ofList (Text.trimmed Text.isSpacing name)
  match level with
  | none | some [] => some (name, Log.debug)
  | some level => (Log.level? (String.ofList level)).map (name, ·)

/-- A list of loggers with their levels. -/
def filters? (s : String) : Option (List (String × Nat)) :=
  (Text.pieces ',' s.toList).mapM filterOfItem?

/-- A number of workers. -/
def workers? (s : String) : Option Int := do
  let n ← Text.integer? s
  guard (1 ≤ n)
  pure n

/-- The value that stands for the standard output. -/
def standardOutput : String := "-"

def addFilters (m : OrderedMap String Nat) : Given (List (String × Nat)) → OrderedMap String Nat
  | .value fs => fs.foldl (fun m p => m.put p.1 p.2) m
  | .nothing => m

/-- The options with what is given for a flag; a file is not created here. -/
def Options.withGiven? (o : Options) (g : Given String) : Flag → Option Options
  | .verboseFilter => do
    let fs ← g.mapM? filters?
    pure { o with filters := addFilters o.filters fs }
  | .typeDelta => some { o with typeDelta := some (g.map Path.normalText) }
  | .workers => do
    let n ← g.mapM? workers?
    pure { o with workers := n }
  | .format => do
    let f ← g.mapM? ReportFormat.ofName?
    pure { o with format := f }
  | .output => some { o with output := if g = .value standardOutput then none else some g }
  | _ => some o

/-- What has been read of a command line. -/
structure Draft where
  options : Options := {}
  paths : List (Given String) := []
  extras : List String := []

variable {m : Type → Type} [Monad m]

/-- Creates the file that is given for the output. -/
def createOutput (files : FileAccess m) (s : String) : ExceptT Stop m Unit :=
  if s = standardOutput then pure ()
  else do
    match ← (files.create s : m _) with
    | .ok () => pure ()
    | .error .nulInPath => throw (.usage (.invalidValue .output s))
    | .error e => throw (.usage (.cannotCreate s e))

/-- The options after a flag with a value. -/
def takeSetting (files : FileAccess m) (o : Options) (f : Flag) (g : Given String) :
    ExceptT Stop m Options := do
  match f, g with
  | .output, .value s => createOutput files s
  | _, _ => pure ()
  match o.withGiven? g f, g with
  | some o, _ => pure o
  | none, .value s => throw (.usage (.invalidValue f s))
  | none, .nothing => pure o

/-- The options after a flag that takes no value. -/
def takeFlag (o : Options) : Flag → Except Stop Options
  | .help => .error .help
  | .version => .error .version
  | .verbose => .ok { o with verbose := true }
  | .fullReport => .ok { o with full := true }
  | f => .error (.usage (.missingValue f))

/-- The draft after an action. -/
def take (files : FileAccess m) (d : Draft) : Action → ExceptT Stop m Draft
  | .path p => pure { d with paths := d.paths ++ [p.map Path.normalText] }
  | .extra s => pure { d with extras := d.extras ++ [s] }
  | .stop s => throw s
  | .flag f => do
    let o ← ExceptT.mk (pure (takeFlag d.options f))
    pure { d with options := o }
  | .setting f g => do
    let o ← takeSetting files d.options f g
    pure { d with options := o }

def pathNames : List String := ["original", "modified"]

/-- The invocation of a draft with both paths and nothing else. -/
def Draft.invocation (d : Draft) : Except Stop Invocation :=
  match d.paths with
  | [base, modified] =>
    if d.extras = [] then .ok ⟨d.options, base, modified⟩
    else .error (.usage (.unrecognized d.extras))
  | paths => .error (.usage (.missingPaths (pathNames.drop paths.length)))

def parse (files : FileAccess m) (args : List String) : ExceptT Stop m Invocation := do
  let words ← ExceptT.mk (pure ((Word.ofArguments args).mapError Stop.usage))
  let draft ← (Action.ofWords pathNames.length words).foldlM (take files) {}
  ExceptT.mk (pure draft.invocation)

end PolicyDelta.CommandLine
