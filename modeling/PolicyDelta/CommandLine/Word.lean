import PolicyDelta.CommandLine.Flag
import PolicyDelta.Text.Digit

/-! The arguments of a command line by their kinds. An argument that starts with a dash is a flag,
given by a spelling, by the unique start of a long spelling, or by several single letters, unless
it is a negative number or holds a blank. After the separator every argument is a value. -/

namespace PolicyDelta.CommandLine

/-- What an argument holds after the spelling of a flag. -/
inductive Attached where
  | nothing
  /-- A text after an equals sign. -/
  | value (s : List Char)
  /-- What follows a single letter, with or without an equals sign; it is not empty. -/
  | letters (s : List Char)
deriving DecidableEq

/-- An argument by its kind. -/
inductive Word where
  | separator
  | value (s : String)
  | flag (flag : Flag) (attached : Attached)
  | unknown (s : String)
deriving DecidableEq

def Attached.ofValue? : Option (List Char) → Attached
  | none => nothing
  | some s => value s

/-- What stands after a spelling and an equals sign. -/
def Attached.ofSpelling (spelling s : List Char) : Attached :=
  if spelling.length = 2 ∧ s ≠ [] then letters s else value s

def Word.text : Word → String
  | separator => separatorText
  | value s | unknown s => s
  | flag .. => ""

def allDigits (cs : List Char) : Bool :=
  cs.all fun c => (Text.digitValue? c).isSome

/-- Digits after a dash, with a fraction or not; a line may end after them. -/
def isNegativeNumber : List Char → Bool
  | '-' :: cs =>
    let body := if cs.getLast? = some '\n' then cs.dropLast else cs
    match Text.cut '.' body with
    | (whole, none) => whole ≠ [] && allDigits whole
    | (whole, some fraction) => allDigits whole && fraction ≠ [] && allDigits fraction
  | _ => false

namespace Word

/-- The words that an abbreviated argument may stand for, with their spellings. -/
def candidates (cs : List Char) : List (String × Word) :=
  match cs with
  | '-' :: '-' :: _ =>
    let (start, after) := Text.cut '=' cs
    (Flag.spelled.filter fun p => start.isPrefixOf p.1.toList).map fun p =>
      (p.1, .flag p.2 (Attached.ofValue? after))
  | c :: d :: rest =>
    match Flag.ofSpelling? (String.ofList [c, d]) with
    | some f => [(String.ofList [c, d], .flag f (.letters rest))]
    | none => []
  | _ => []

/-- The word of an argument that starts with a dash and is not a dash alone. -/
def ofDashed (s : String) : Except UsageError Word :=
  match candidates s.toList with
  | [(_, w)] => .ok w
  | [] =>
    if isNegativeNumber s.toList ∨ ' ' ∈ s.toList then .ok (.value s) else .ok (.unknown s)
  | found => .error (.ambiguous s (found.map Prod.fst))

def ofSpelling? (spelling : List Char) (attached : Attached) : Option Word :=
  (Flag.ofSpelling? (String.ofList spelling)).map (.flag · attached)

/-- The word of an argument before the separator. -/
def ofArgument (s : String) : Except UsageError Word :=
  let cs := s.toList
  if cs.head? ≠ some '-' then .ok (.value s)
  else
    match ofSpelling? cs .nothing with
    | some w => .ok w
    | none =>
      if cs = ['-'] then .ok (.value s)
      else
        match Text.cut '=' cs with
        | (spelling, some after) =>
          match ofSpelling? spelling (.ofSpelling spelling after) with
          | some w => .ok w
          | none => ofDashed s
        | (_, none) => ofDashed s

def ofArguments : List String → Except UsageError (List Word)
  | [] => .ok []
  | s :: rest =>
    if s = separatorText then .ok (.separator :: rest.map .value)
    else do
      let w ← ofArgument s
      let ws ← ofArguments rest
      pure (w :: ws)

end Word

end PolicyDelta.CommandLine
