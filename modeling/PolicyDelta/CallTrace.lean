import PolicyDelta.Json.Shortest
import PolicyDelta.Log.Level
import PolicyDelta.Text.Integer
import PolicyDelta.Text.Quoted

/-! Traces of calls. A traced call tells when it is entered, with its arguments, and when it is
left, with the time that it took and its result, or the failure that left it. A call whose arguments
or result cannot be shown fails. -/

namespace PolicyDelta

mutual

def Json.shown : Json → String
  | .null => "None"
  | .bool true => "True"
  | .bool false => "False"
  | .integer n => toString n
  | .decimal negative significand exponent =>
    (Binary64.ofDecimal negative significand exponent).text
  | .infinity negative => (Binary64.infinite negative).text
  | .nan => "nan"
  | .text s => Text.quoted s
  | .array vs => "[" ++ ", ".intercalate (shownItems vs) ++ "]"
  | .object ms => "\x7b" ++ ", ".intercalate (shownMembers ms) ++ "\x7d"

def Json.shownItems : List Json → List String
  | [] => []
  | v :: vs => shown v :: shownItems vs

/-- The members of an object as they are shown. -/
def Json.shownMembers : List (String × Json) → List String
  | [] => []
  | (k, v) :: ms => (Text.quoted k ++ ": " ++ shown v) :: shownMembers ms

end

/-- The arguments of a call as they are shown; a single one is told from a value in brackets. -/
def Json.shownArguments : List Json → String
  | [v] => "(" ++ shown v ++ ",)"
  | vs => "(" ++ ", ".intercalate (shownItems vs) ++ ")"

mutual

/-- Whether all integers in a value can be shown. -/
def Json.isShowable : Json → Bool
  | .integer n => n.natAbs.repr.length ≤ Text.maxDigits
  | .array vs => areShowable vs
  | .object ms => membersAreShowable ms
  | _ => true

/-- Whether all integers in some values can be shown. -/
def Json.areShowable : List Json → Bool
  | [] => true
  | v :: vs => isShowable v && areShowable vs

/-- Whether all integers in an object can be shown. -/
def Json.membersAreShowable : List (String × Json) → Bool
  | [] => true
  | (_, v) :: ms => isShowable v && membersAreShowable ms

end

/-- What a trace tells of a call. -/
structure CallTrace where
  arguments : Bool := true
  result : Bool := true
deriving DecidableEq

/-- A call: its function, its arguments by place and by name, its outcome and how long it took. -/
structure Call where
  function : String
  arguments : List Json
  named : List (String × Json)
  outcome : Except String Json
  elapsed : String

namespace CallTrace

/-- Why a traced call fails. -/
inductive Failure where
  /-- The call itself fails, with a message. -/
  | ofCall (message : String)
  /-- An integer that is to be shown has too many digits. -/
  | tooManyDigits
deriving DecidableEq

def Failure.message : Failure → String
  | ofCall message => message
  | tooManyDigits =>
    s!"Exceeds the limit ({Text.maxDigits} digits) for integer string conversion; " ++
      "use sys.set_int_max_str_digits() to increase the limit"

def enterText (t : CallTrace) (c : Call) : String :=
  let arguments :=
    if t.arguments then
      " args=" ++ Json.shownArguments c.arguments ++ " kwargs=" ++ (Json.object c.named).shown
    else ""
  c.function ++ " enter" ++ arguments

def leaveText (t : CallTrace) (c : Call) : String :=
  match c.outcome with
  | .ok v =>
    c.function ++ " exit after " ++ c.elapsed ++ if t.result then " ret=" ++ v.shown else ""
  | .error e => c.function ++ " except " ++ e

/-- The messages of a call and what becomes of it; they are told to a logger that lets everything
from a level on through. -/
def run (t : CallTrace) (level : Nat) (c : Call) : List String × Except Failure Json :=
  let argumentsFail :=
    t.arguments && !(Json.areShowable c.arguments && Json.membersAreShowable c.named)
  if Log.debug < level then ([], c.outcome.mapError .ofCall)
  else if argumentsFail then ([], .error .tooManyDigits)
  else
    match c.outcome with
    | .error e => ([t.enterText c, t.leaveText c], .error (.ofCall e))
    | .ok v =>
      if t.result && !v.isShowable then ([t.enterText c], .error .tooManyDigits)
      else ([t.enterText c, t.leaveText c], .ok v)

end CallTrace

end PolicyDelta
