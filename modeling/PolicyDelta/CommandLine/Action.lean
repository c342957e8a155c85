import PolicyDelta.CommandLine.Word

/-! What the words of a command line ask for, one after the other. The first values are the paths
of the two policies, wherever they stand among the flags; values beyond them are left over. -/

namespace PolicyDelta.CommandLine

/-- What a part of a command line asks for. -/
inductive Action where
  | path (p : Given String)
  /-- A flag that takes no value. -/
  | flag (f : Flag)
  | setting (f : Flag) (value : Given String)
  /-- An argument without a use. -/
  | extra (s : String)
  | stop (s : Stop)
deriving DecidableEq

namespace Action

/-- The action of a flag with a text after an equals sign. -/
def ofValue (f : Flag) (s : List Char) : Except UsageError Action :=
  if f.takesValue then .ok (.setting f (.ofText (String.ofList s)))
  else .error (.ignoredValue f (String.ofList s))

/-- The actions of a flag with the letters that follow its letter. No action is taken if one of
them is unknown; it is told with all that follow it. -/
def ofLetters (f : Flag) : List Char → Except UsageError (List Action)
  | [] => .ok [.flag f]
  | c :: cs =>
    match Flag.ofSpelling? (String.ofList ['-', c]) with
    | some next => (ofLetters next cs).map (.flag f :: ·)
    | none => .error (.ignoredValue f (String.ofList (c :: cs)))

/-- The actions of a flag with what is attached to it. -/
def ofFlag (f : Flag) : Attached → Except UsageError (List Action)
  | .nothing => .ok [.flag f]
  | .value s => (ofValue f s).map ([·])
  | .letters cs => ofLetters f cs

/-- The actions of words while a number of paths is awaited. -/
def ofWords : Nat → List Word → List Action
  | _, [] => []
  | n, .unknown s :: ws => .extra s :: ofWords n ws
  | n, .flag f attached :: ws =>
    if f.takesValue ∧ attached = .nothing then
      match ws with
      | .value s :: rest => .setting f (.ofText s) :: ofWords n rest
      | _ => [.stop (.usage (.missingValue f))]
    else
      match ofFlag f attached with
      | .ok actions => actions ++ ofWords n ws
      | .error e => [.stop (.usage e)]
  | n + 1, .separator :: .value s :: ws => .path (.value s) :: ofWords n ws
  | n + 1, .value s :: .separator :: ws => .path (.value s) :: ofWords n ws
  | n + 1, .value s :: ws => .path (.ofText s) :: ofWords n ws
  | n, w :: ws => .extra w.text :: ofWords n ws

end Action

end PolicyDelta.CommandLine
