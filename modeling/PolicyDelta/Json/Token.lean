import PolicyDelta.Json.Basic
import PolicyDelta.Text.Hex

/-! The tokens of a JSON text. A scanner reads one character at a time; a run of letters, digits,
signs and points is collected whole and read as a literal or a number at its end, so two of them
never touch. -/

namespace PolicyDelta.Json

/-- A token; `scalar` holds a value that is written as one word. -/
inductive Token where
  | beginArray
  | endArray
  | beginObject
  | endObject
  | comma
  | colon
  | text (s : String)
  | scalar (v : Json)

/-- A run of digits, which may be empty, and what follows it. -/
def digits (cs : List Char) : List Char × List Char :=
  (cs.takeWhile Char.isDigit, cs.dropWhile Char.isDigit)

/-- The digits after a decimal point, if there is one, and what follows. -/
def fraction? : List Char → Option (List Char × List Char)
  | '.' :: rest =>
    let (ds, rest) := digits rest
    if ds = [] then none else some (ds, rest)
  | cs => some ([], cs)

/-- The exponent that a number ends with; a number without one has exponent zero. -/
def exponent? : List Char → Option Int
  | [] => some 0
  | e :: rest =>
    if e = 'e' ∨ e = 'E' then
      let (negative, rest) := match rest with
        | '-' :: rest => (true, rest)
        | '+' :: rest => (false, rest)
        | rest => (false, rest)
      let (ds, rest) := digits rest
      if ds = [] ∨ rest ≠ [] then none
      else
        let n : Int := Nat.ofDigitChars 10 ds 0
        some (if negative then -n else n)
    else none

/-- The length of a number's whole part with its sign. -/
def wholeLength (negative : Bool) (whole : List Char) : Nat :=
  if negative then whole.length + 1 else whole.length

/-- The number that a word without its minus sign stands for. -/
def unsigned? (maxLength : Nat) (negative : Bool) (word : List Char) : Option Json :=
  let (whole, rest) := digits word
  if whole = [] ∨ (whole.head? = some '0' ∧ whole ≠ ['0']) then none
  else if maxLength < wholeLength negative whole then none
  else if rest = [] then
    let n : Int := Nat.ofDigitChars 10 whole 0
    some (.integer (if negative then -n else n))
  else do
    let (part, rest) ← fraction? rest
    let e ← exponent? rest
    pure (.decimal negative (Nat.ofDigitChars 10 (whole ++ part) 0) (e - part.length))

/-- The value that a word stands for. -/
def ofWord? (maxLength : Nat) (word : List Char) : Option Json :=
  if word = ['n', 'u', 'l', 'l'] then some .null
  else if word = ['t', 'r', 'u', 'e'] then some (.bool true)
  else if word = ['f', 'a', 'l', 's', 'e'] then some (.bool false)
  else if word = nanWord then some .nan
  else match word with
    | '-' :: rest =>
      if rest = infinityWord then some (.infinity true)
      else unsigned? maxLength true rest
    | _ =>
      if word = infinityWord then some (.infinity false)
      else unsigned? maxLength false word

/-- What the scanner has read of a token; texts and words are kept in reverse. -/
inductive Scan where
  | between
  | word (read : List Char)
  | text (read : List Char)
  /-- After a backslash. -/
  | escape (read : List Char)
  /-- In the four digits of an escaped code unit; `high` is the first half of a pair. -/
  | unit (read : List Char) (high : Option Nat) (count value : Nat)
  /-- After the first half of a pair, before the backslash of the second. -/
  | pair (read : List Char) (high : Nat)
  /-- After that backslash. -/
  | pairEscape (read : List Char) (high : Nat)

def isBlank (c : Char) : Bool :=
  c == ' ' || c == '\t' || c == '\n' || c == '\r'

def isWordChar (c : Char) : Bool :=
  c.isAlphanum || c == '-' || c == '+' || c == '.'

def punctuation? : Char → Option Token
  | '[' => some .beginArray
  | ']' => some .endArray
  | '\x7b' => some .beginObject
  | '\x7d' => some .endObject
  | ',' => some .comma
  | ':' => some .colon
  | _ => none

/-- The character that an escape letter stands for. -/
def escaped? : Char → Option Char
  | '"' => some '"'
  | '\\' => some '\\'
  | '/' => some '/'
  | 'b' => some '\x08'
  | 'f' => some '\x0c'
  | 'n' => some '\n'
  | 'r' => some '\r'
  | 't' => some '\t'
  | _ => none

namespace Scan

/-- Reads a character between tokens. -/
def start (c : Char) : Option (Scan × List Token) :=
  if isBlank c then some (.between, [])
  else if c = '"' then some (.text [], [])
  else if isWordChar c then some (.word [c], [])
  else (punctuation? c).map fun t => (.between, [t])

/-- Goes on after the last digit of a code unit. -/
def endUnit (read : List Char) (high : Option Nat) (value : Nat) : Option Scan :=
  let isLow := 0xDC00 ≤ value ∧ value < 0xE000
  match high with
  | none =>
    if 0xD800 ≤ value ∧ value < 0xDC00 then some (.pair read value)
    else if isLow then none
    else some (.text (Char.ofNat value :: read))
  | some high =>
    if isLow then
      some (.text (Char.ofNat (0x10000 + (high - 0xD800) * 0x400 + (value - 0xDC00)) :: read))
    else none

/-- Reads one character; a word ends before the character that is no part of it. -/
def step (maxLength : Nat) : Scan → Char → Option (Scan × List Token)
  | .between, c => start c
  | .word read, c =>
    if isWordChar c then some (.word (c :: read), [])
    else do
      let v ← ofWord? maxLength read.reverse
      let (next, ts) ← start c
      pure (next, .scalar v :: ts)
  | .text read, c =>
    if c = '"' then some (.between, [.text (String.ofList read.reverse)])
    else if c = '\\' then some (.escape read, [])
    else if c.toNat < 0x20 then none
    else some (.text (c :: read), [])
  | .escape read, c =>
    if c = 'u' then some (.unit read none 0 0, [])
    else (escaped? c).map fun e => (.text (e :: read), [])
  | .unit read high count value, c => do
    let d ← Text.hexValue? c
    if count < 3 then pure (.unit read high (count + 1) (16 * value + d), [])
    else do
      let next ← endUnit read high (16 * value + d)
      pure (next, [])
  | .pair read high, c => if c = '\\' then some (.pairEscape read high, []) else none
  | .pairEscape read high, c => if c = 'u' then some (.unit read (some high) 0 0, []) else none

/-- The tokens that the end of the text completes. -/
def finish? (maxLength : Nat) : Scan → Option (List Token)
  | .between => some []
  | .word read => (ofWord? maxLength read.reverse).map fun v => [.scalar v]
  | _ => none

/-- Reads the rest of a text; `found` holds the tokens before it in reverse. -/
def run (maxLength : Nat) (scan : Scan) (found : List Token) : List Char → Option (List Token)
  | [] => (scan.finish? maxLength).map fun ts => (ts.reverseAux found).reverse
  | c :: cs =>
    match scan.step maxLength c with
    | none => none
    | some (next, ts) => run maxLength next (ts.reverseAux found) cs

end Scan

/-- The tokens of a text whose numbers have whole parts of limited length. -/
def tokens? (maxLength : Nat) (cs : List Char) : Option (List Token) :=
  Scan.run maxLength .between [] cs

end PolicyDelta.Json
