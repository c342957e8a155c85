import PolicyDelta.CommandLine.Help
import PolicyDelta.CommandLine.Options
import PolicyDelta.PolicyFile

/-! A run of the program. It reads the command line, the policies and the difference of their
types, compares the policies, and writes the report line by line. -/

namespace PolicyDelta

open CommandLine

/-- What a run cannot do without and its command line takes away by a separator. -/
inductive Lack where
  | path
  | workers
  | format
  | output
deriving DecidableEq

/-- The message for something that is not given. -/
def Lack.message : Lack → String
  | path => "expected str, bytes or os.PathLike object, not list"
  | workers => "'<=' not supported between instances of 'list' and 'int'"
  | format => "Invalid report format []"
  | output => "'list' object has no attribute 'writelines'"

/-- Why a run ends without a comparison. -/
inductive RunFailure where
  | stopped (s : Stop)
  | lacking (l : Lack)
  | unreadable (e : FileFailure)
  | unusable (e : PolicyFile.Failure)
  | closed (e : SessionError)
  | unshown (e : MissingDefault)
deriving DecidableEq

/-- The message of a run without a comparison; issues of content are counted. -/
def RunFailure.message : RunFailure → String
  | stopped s => s.message
  | lacking l => l.message
  | unreadable e => e.message
  | unusable (.invalidPolicy issues) => s!"{issues.length} validation errors for PolicySnapshot"
  | unusable (.invalidTypeDelta issues) => s!"{issues.length} validation errors for TypeDiff"
  | unusable e => e.message
  | closed e => e.message
  | unshown e => e.message

def RunFailure.code : RunFailure → Nat
  | stopped s => s.code
  | _ => 1

/-- What a run leaves behind besides files. -/
structure RunOutcome where
  /-- The exit code. -/
  result : Except RunFailure Nat
  output : String
  log : String

namespace Program

def version : String := "0.1"

/-- The exit code of a run whose policies could be compared. -/
def compared : Nat := 0

/-- The exit code of a run that met an unknown name. -/
def incomparable : Nat := 1

def logSettings (o : Options) : Log.Settings :=
  ⟨o.logLevel, o.filters⟩

/-- What a run reaches outside itself. -/
structure Access (m : Type → Type) extends FileAccess m where
  /-- Reads the compiled policy at a path, where there is a reader for such policies. -/
  compiled : String → m (Except PolicyFile.Failure Policy)

variable {m : Type → Type} [Monad m]

/-- What a run has told and written to its standard output so far. -/
structure Told where
  events : List Event := []
  output : String := ""

/-- A part of a run. -/
abbrev RunM (m : Type → Type) := ExceptT RunFailure (StateT Told m)

def tell (events : List Event) : RunM m Unit :=
  modify fun t => { t with events := t.events ++ events }

def print (text : String) : RunM m Unit :=
  modify fun t => { t with output := t.output ++ text }

def ofExcept (failure : ε → RunFailure) : Except ε α → RunM m α
  | .ok a => pure a
  | .error e => throw (failure e)

/-- What is given, if the run needs it. -/
def need (l : Lack) : Given α → RunM m α
  | .value a => pure a
  | .nothing => throw (.lacking l)

def content (files : FileAccess m) (path : String) : RunM m ByteArray := do
  let file ← ofExcept .unreadable (← (files.read path : m _))
  ofExcept .unusable (PolicyFile.unpack file)

/-- Reads a policy; it is told of once its format is known. A compiled policy is read anew by the
reader for such policies. -/
def readPolicy (a : Access m) (path : String) : RunM m Policy := do
  let content ← content a.toFileAccess path
  match ← ofExcept .unusable (PolicyFile.detect content) with
  | .json =>
    tell [.loadingPolicy path]
    ofExcept .unusable (PolicyFile.policyOfContent content)
  | .binary => ofExcept .unusable (← (a.compiled path : m _))

def readTypeDelta (files : FileAccess m) (path : String) : RunM m TypeDelta := do
  tell [.loadingTypeDelta path]
  let content ← content files path
  ofExcept .unusable (PolicyFile.typeDeltaOfContent content)

/-- The difference of types that is given or else follows from the policies. -/
def typeDelta (files : FileAccess m) (base modified : Policy) :
    Option (Given String) → RunM m TypeDelta
  | some (.value path) => readTypeDelta files path
  | some .nothing | none => pure (.between base modified ∅)

/-- Builds a session. Without a number of workers it gets as far as to the first index. -/
def buildSession (base modified : Policy) (delta : TypeDelta) :
    Given Int → RunM m (Except UnknownIdentifier Session)
  | .value workers => do
    let (session, events) := Session.build base modified delta workers
    tell events
    pure session
  | .nothing => do
    let s := Session.unbuilt base modified delta
    tell [.comparing s.base.id s.modified.id]
    match Equivalence.make s.base s.modified delta with
    | .error e => pure (.error e)
    | .ok _ => throw (.lacking .workers)

/-- The file for the report, if there is one. -/
def target : Option (Given String) → RunM m (Option String)
  | some g => some <$> need .output g
  | none => pure none

/-- Writes a line to a file, or else to the standard output. -/
def writeLine (files : FileAccess m) (path? : Option String) (line : String) : RunM m Unit :=
  match path? with
  | some path => (files.append path (line ++ "\n") : m Unit)
  | none => print (line ++ "\n")

/-- Writes lines as they are made, up to the first that fails. -/
def writeLines (files : FileAccess m) (path? : Option String) :
    List (Except MissingDefault String) → RunM m Unit
  | [] => pure ()
  | line :: lines => do
    writeLine files path? (← ofExcept .unshown line)
    writeLines files path? lines

/-- Writes a report to the file for it, or else to the standard output. -/
def write (files : FileAccess m) (style : ReportStyle) (report : Report)
    (output : Option (Given String)) : RunM m Unit := do
  tell [report.event style]
  let path? ← target output
  writeLines files path? (report.lines style)

/-- The session of the policies of a command line, or the unknown name that there is in them. -/
def session (a : Access m) (i : Invocation) : RunM m (Except UnknownIdentifier Session) := do
  let base ← readPolicy a (← need .path i.base)
  let modified ← readPolicy a (← need .path i.modified)
  let delta ← typeDelta a.toFileAccess base modified i.options.typeDelta
  buildSession base modified delta i.options.workers

/-- Compares the policies of a command line and writes the report. The result is the exit code. -/
def compare (a : Access m) (i : Invocation) : RunM m Nat := do
  match ← session a i with
  | .error e =>
    tell [.failed e]
    pure incomparable
  | .ok session =>
    let report ← ofExcept .closed (Report.ofSession session)
    let format ← need .format i.options.format
    let style : ReportStyle := ⟨format, i.options.full, i.options.logLevel⟩
    write a.toFileAccess style report i.options.output
    pure compared

def run (a : Access m) (args : List String) : m RunOutcome := do
  match ← (parse a.toFileAccess args).run with
  | .error s => pure ⟨.error (.stopped s), (s.printed version).toOption.getD "", ""⟩
  | .ok i =>
    let (result, told) ← (compare a i).run.run {}
    pure ⟨result, told.output, Event.log (logSettings i.options) told.events⟩

/-- A reader of compiled policies in a directory. -/
abbrev Reader := Directory → String → Except PolicyFile.Failure Policy

/-- There is no reader of compiled policies. -/
def noReader : Reader := fun _ _ => .error .noBinaryReader

/-- Access to the files of a directory that is the state, and to a reader that leaves them as they
are. -/
def accessWith (reader : Reader) : Access (StateM Directory) where
  toFileAccess := Directory.access
  compiled path := do pure (reader (← get) path)

end Program

end PolicyDelta
