import PolicyDelta.Json.Binary64
import PolicyDelta.Json.Token
import PolicyDelta.Text.Blank
import PolicyDelta.Text.Split
import PolicyDelta.Validation.Basic

/-! Checks of names, truth values and integers. Truth values and integers are also read from texts
and from numbers with an integral value. -/

namespace PolicyDelta.Check

def string : Json → Checked String
  | .text s => .valid s
  | _ => .fail .stringType

/-- The number above all integers that a word of 64 bits holds. -/
def wordBound : Int := 0x8000000000000000

/-- The first integer of more than 18 digits. -/
def longBound : Nat := 1000000000000000000

/-- The integer that a decimal number is after rounding, strictly inside a word of 64 bits. -/
def integral (negative : Bool) (significand : Nat) (exponent : Int) : Checked Int :=
  match Json.Binary64.ofDecimal negative significand exponent with
  | .infinite _ => .fail .finiteNumber
  | x =>
    match x.toInt? with
    | none => .fail .intFromFloat
    | some n => if -wordBound < n ∧ n < wordBound then .valid n else .fail .intParsingSize

/-- The texts that stand for a truth value in any mixture of cases. -/
def boolWord? (s : String) : Option Bool :=
  let w := s.toList.map Char.toLower
  if w ∈ ["0", "off", "f", "false", "n", "no"].map String.toList then some false
  else if w ∈ ["1", "on", "t", "true", "y", "yes"].map String.toList then some true
  else none

/-- Zero and one stand for truth values, and other integers are misspelt ones. -/
def boolOfInt (n : Int) : Checked Bool :=
  if n = 0 then .valid false
  else if n = 1 then .valid true
  else .fail .boolParsing

/-- A truth value. An integer of more than 18 digits is of the wrong type. -/
def bool : Json → Checked Bool
  | .bool b => .valid b
  | .integer n => if n.natAbs < longBound then boolOfInt n else .fail .boolType
  | .decimal negative significand exponent =>
    match integral negative significand exponent with
    | .valid n => boolOfInt n
    | .invalid _ => .fail .boolType
  | .text s =>
    match boolWord? s with
    | some b => .valid b
    | none => .fail .boolParsing
  | _ => .fail .boolType

/-! ## Integers in texts

A text is read as it stands first. If that fails it is tidied once: the white space around it, a
plus sign, leading zeros, a fraction of zeros and single underscores are taken away. -/

/-- How a text reads as an integer in JSON. -/
inductive Reading where
  | integer (n : Int)
  /-- The digits are more than a text may have. -/
  | tooLong
  | other
deriving DecidableEq

/-- Reads a text as an integer in JSON. -/
def reading (cs : List Char) : Reading :=
  let (negative, body) := match cs with
    | '-' :: rest => (true, rest)
    | _ => (false, cs)
  let (ds, rest) := Json.digits body
  if ds = [] ∨ (ds.head? = some '0' ∧ ds ≠ ['0']) then .other
  else if Json.Limits.standard.length < Json.wholeLength negative ds then .tooLong
  else if rest ≠ [] then .other
  else
    let n : Int := Nat.ofDigitChars 10 ds 0
    .integer (if negative then -n else n)

/-- A text after zeros and underscores, of which `last` is the last one. A digit or a minus sign
starts what is left; before a point and at the end the last of them stays. -/
def afterZeros? (last : Char) : List Char → Option (List Char)
  | [] => some [last]
  | c :: cs =>
    if c = '0' ∨ c = '_' then afterZeros? c cs
    else if c = '.' then some (last :: c :: cs)
    else if c.isDigit ∨ c = '-' then some (c :: cs)
    else none

/-- A text that starts with a digit without its leading zeros. -/
def withoutZeros? : List Char → Option (List Char)
  | [] => none
  | c :: cs =>
    if c = '0' then afterZeros? c cs
    else if c.isDigit then some (c :: cs)
    else none

/-- A text without a fraction that consists of zeros. -/
def withoutFraction (cs : List Char) : List Char :=
  match Text.cut '.' cs with
  | (whole, some fraction) => if fraction ≠ [] ∧ fraction.all (· == '0') then whole else cs
  | (_, none) => cs

/-- A text without single underscores inside it; there may be no others. -/
def withoutUnderscores? (cs : List Char) : Option (List Char) :=
  if '_' ∈ cs ∧ [] ∈ Text.pieces '_' cs then none else some (cs.filter (· ≠ '_'))

def tidiedDigits? (cs : List Char) : Option (List Char) :=
  (withoutZeros? cs).bind fun ds => withoutUnderscores? (withoutFraction ds)

/-- A text without white space around it, tidied. -/
def tidied? : List Char → Option (List Char)
  | '-' :: cs => (tidiedDigits? cs).map ('-' :: ·)
  | '+' :: cs => tidiedDigits? cs
  | cs => tidiedDigits? cs

/-- The integer that a text stands for. Only a text that starts with its digits is said to have too
many of them; one that has them after white space is no integer. -/
def integerText (s : String) : Checked Int :=
  match reading s.toList with
  | .integer n => .valid n
  | .tooLong => .fail .intParsingSize
  | .other =>
    match (tidied? (Text.trimmed Text.isWhiteSpace s.toList)).map reading with
    | some (.integer n) => .valid n
    | _ => .fail .intParsing

def integer : Json → Checked Int
  | .integer n => .valid n
  | .bool b => .valid (if b then 1 else 0)
  | .decimal negative significand exponent => integral negative significand exponent
  | .infinity _ | .nan => .fail .finiteNumber
  | .text s => integerText s
  | _ => .fail .intType

/-- One of finitely many texts, given as a partial function on texts. -/
def oneOf (kind : IssueKind) (value? : String → Option α) : Json → Checked α
  | .text s =>
    match value? s with
    | some a => .valid a
    | none => .fail kind
  | _ => .fail kind

/-- A value or null. -/
def nullable (check : Json → Checked α) : Json → Checked (Option α)
  | .null => .valid none
  | v => some <$> check v

end PolicyDelta.Check
