import PolicyDelta.Text.Blank
import PolicyDelta.Text.Digit

/-! Integers as they are typed on a command line: a sign, then decimal digits of any script with
single underscores between them, in white space. -/

namespace PolicyDelta.Text

/-- The most digits that an integer text may have. -/
def maxDigits : Nat := 4300

/-- The digit values of a run of digits with single underscores between them. -/
def digitRun? : List Char → Option (List Nat)
  | [] => none
  | [c] => (digitValue? c).map ([·])
  | c :: '_' :: rest => do
    let d ← digitValue? c
    let ds ← digitRun? rest
    pure (d :: ds)
  | c :: rest => do
    let d ← digitValue? c
    let ds ← digitRun? rest
    pure (d :: ds)

/-- The number with the given decimal digits, the most significant first. -/
def ofDigits (ds : List Nat) : Nat :=
  ds.foldl (fun n d => 10 * n + d) 0

def integer? (s : String) : Option Int :=
  let (negative, body) := match trimmed isWhiteSpace s.toList with
    | '-' :: rest => (true, rest)
    | '+' :: rest => (false, rest)
    | body => (false, body)
  match digitRun? body with
  | none => none
  | some ds =>
    if ds.length > maxDigits then none
    else some (if negative then - (ofDigits ds : Int) else ofDigits ds)

end PolicyDelta.Text
