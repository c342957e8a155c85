import PolicyDelta.Text.Quoted

/-! Templates. A text that names the program has places, each of which starts with a percent sign. A
place has a key in parentheses, flags, a width, a precision, a letter for the size of numbers and at
last the letter that says how its subject is shown; all but the last may be left out. The key `prog`
makes the program's name the subject. Before the first key the subject is the mapping from keys to
names. A subject is shown once. Two percent signs stand for one. -/

namespace PolicyDelta.CommandLine

def programName : String := "sepoldiff"

/-- What a place shows. -/
inductive Subject where
  | names
  | name
deriving DecidableEq

namespace Subject

/-- The key of the program's name. -/
def key : String := "prog"

def text : Subject → String
  | names => "\x7b" ++ Text.quoted key ++ ": " ++ Text.quoted programName ++ "\x7d"
  | name => programName

/-- The text of a subject as it is shown for inspection. -/
def inspected : Subject → String
  | names => names.text
  | name => Text.quoted programName

def kind : Subject → String
  | names => "dict"
  | name => "str"

end Subject

/-- What is wrong with a template. -/
inductive TemplateError where
  | openKey
  | unknownKey (key : String)
  | tooWide
  | tooPrecise
  /-- The template ends inside a place. -/
  | unfinished
  /-- No way of showing has this letter, which stands at an index. -/
  | unknownLetter (letter : Char) (index : Nat)
  | nothingLeft
  /-- A width or precision that the subject should give. -/
  | numberFromSubject
  /-- A letter for numbers. -/
  | notNumber (letter : Char) (subject : Subject)
  /-- A text that does not fit into memory. -/
  | outOfMemory
deriving DecidableEq

def integerLetters : List Char := ['d', 'i', 'u']

def baseLetters : List Char := ['o', 'x', 'X']

def fractionLetters : List Char := ['e', 'E', 'f', 'F', 'g', 'G']

def TemplateError.message : TemplateError → String
  | openKey => "incomplete format key"
  | unknownKey key => Text.quoted key
  | tooWide => "width too big"
  | tooPrecise => "precision too big"
  | unfinished => "incomplete format"
  | unknownLetter c index =>
    let shown := if 31 ≤ c.toNat ∧ c.toNat ≤ 126 then c else '?'
    let code := String.ofList (Nat.toDigits 16 c.toNat)
    s!"unsupported format character '{shown}' (0x{code}) at index {index}"
  | nothingLeft => "not enough arguments for format string"
  | numberFromSubject => "* wants int"
  | notNumber c subject =>
    if c ∈ baseLetters then s!"%{c} format: an integer is required, not {subject.kind}"
    else if c ∈ integerLetters then s!"%{c} format: a real number is required, not {subject.kind}"
    else if c ∈ fractionLetters then s!"must be real number, not {subject.kind}"
    else "%c requires int or char"
  | outOfMemory => ""

namespace Template

/-- A key up to the parenthesis that closes it, and what follows; `depth` counts the parentheses
that are open inside the key. -/
def key? (depth : Nat) : List Char → Option (List Char × List Char)
  | [] => none
  | c :: cs =>
    if c = ')' ∧ depth = 0 then some ([], cs)
    else
      let depth := if c = '(' then depth + 1 else if c = ')' then depth - 1 else depth
      (key? depth cs).map fun p => (c :: p.1, p.2)

/-- The subject of a place and what follows its key. -/
def subject (current : Option Subject) :
    List Char → Except TemplateError (Option Subject × List Char)
  | '(' :: cs =>
    match key? 0 cs with
    | none => .error .openKey
    | some (key, rest) =>
      if key = Subject.key.toList then .ok (some .name, rest)
      else .error (.unknownKey (String.ofList key))
  | cs => .ok (current, cs)

/-- The greatest width. -/
def maxWidth : Nat := 0x7fffffffffffffff

/-- The greatest precision. -/
def maxPrecision : Nat := 0x7fffffff

/-- A number in digits and what follows it. A star asks for the subject instead. -/
def number (current : Option Subject) (max : Nat) (beyond : TemplateError) (cs : List Char) :
    Except TemplateError (Option Nat × List Char) :=
  if cs.head? = some '*' then
    .error (if current.isNone then .nothingLeft else .numberFromSubject)
  else
    let ds := cs.takeWhile Char.isDigit
    let n := Nat.ofDigitChars 10 ds 0
    if max < n then .error beyond
    else .ok (if ds = [] then none else some n, cs.dropWhile Char.isDigit)

/-- The precision of a place, if it has one, and what follows. -/
def precision (current : Option Subject) :
    List Char → Except TemplateError (Option Nat × List Char)
  | '.' :: cs => do
    let (n, rest) ← number current maxPrecision .tooPrecise cs
    pure (some (n.getD 0), rest)
  | cs => .ok (none, cs)

/-- What follows the letter for the size of numbers. -/
def withoutSize : List Char → List Char
  | c :: cs => if c ∈ ['h', 'l', 'L'] then cs else c :: cs
  | [] => []

/-- How a letter shows a subject; none of the letters for numbers and characters does. -/
def shown (s : Subject) (letter : Char) (index : Nat) : Except TemplateError String :=
  if letter = 's' then .ok s.text
  else if letter = 'r' ∨ letter = 'a' then .ok s.inspected
  else if letter = 'c' ∨ letter ∈ integerLetters ++ baseLetters ++ fractionLetters then
    .error (.notNumber letter s)
  else .error (.unknownLetter letter index)

/-- The greatest width for which there is memory. -/
def memoryWidth : Nat := 0x7fffffff

/-- A text cut to a precision and filled up with spaces to a width. -/
def fitted (left : Bool) (width precision : Option Nat) (s : List Char) :
    Except TemplateError (List Char) :=
  let s := match precision with
    | some n => s.take n
    | none => s
  let width := width.getD 0
  if memoryWidth < width then .error .outOfMemory
  else
    let spaces := List.replicate (width - s.length) ' '
    .ok (if left then s ++ spaces else spaces ++ s)

/-- The text of a place after its percent sign, and what follows it; `size` is the length of the
whole template. -/
def place (size : Nat) (current : Option Subject) (cs : List Char) :
    Except TemplateError (List Char × Option Subject × List Char) := do
  let (current, cs) ← subject current cs
  let isFlag (c : Char) : Bool := c ∈ ['-', '+', ' ', '#', '0']
  let left := '-' ∈ cs.takeWhile isFlag
  let (width, cs) ← number current maxWidth .tooWide (cs.dropWhile isFlag)
  let (precision, cs) ← precision current cs
  match withoutSize cs, current with
  | [], _ => throw .unfinished
  | _, none => throw .nothingLeft
  | letter :: rest, some s =>
    let text ← shown s letter (size - rest.length - 1)
    pure (← fitted left width precision text.toList, none, rest)

/-- The rest of a template, which has at most `fuel` characters, with its places filled; `size` is
the length of the whole template. -/
def fillRest (size : Nat) : Nat → Option Subject → List Char → Except TemplateError (List Char)
  | 0, _, _ => .ok []
  | _, _, [] => .ok []
  | fuel + 1, current, '%' :: '%' :: cs => do
    pure ('%' :: (← fillRest size fuel current cs))
  | fuel + 1, current, '%' :: cs => do
    let (text, current, rest) ← place size current cs
    pure (text ++ (← fillRest size fuel current rest))
  | fuel + 1, current, c :: cs => do
    pure (c :: (← fillRest size fuel current cs))

/-- How a template names the program. -/
def mark : List Char := ("%(" ++ Subject.key ++ ")").toList

/-- A text with its places filled; one that does not name the program is no template. -/
def fill (cs : List Char) : Except TemplateError (List Char) :=
  if (List.range cs.length).any fun i => mark.isPrefixOf (cs.drop i) then
    fillRest cs.length cs.length (some .names) cs
  else .ok cs

end Template

end PolicyDelta.CommandLine
