import PolicyDelta.Json.Basic
import PolicyDelta.Text.Hex

/-! Writing JSON texts. A `Layout` states what a format decides: the separators, the indentation
and whether characters beyond ASCII are escaped. -/

namespace PolicyDelta.Json

/-- The decisions of a JSON format. -/
structure Layout where
  /-- Written between items; a line break follows it where lines are indented. -/
  comma : List Char
  /-- Written between a key and its value. -/
  colon : List Char
  /-- The width of one level of indentation; without one all stands in one line. -/
  indent : Option Nat
  /-- Only printable ASCII characters stand for themselves. -/
  ascii : Bool

namespace Layout

/-- No blank anywhere. -/
def compact : Layout := ⟨[','], [':'], none, false⟩

/-- One item a line, indented by four columns. -/
def indented : Layout := ⟨[','], [':', ' '], some 4, false⟩

/-- One line with a blank after each separator, in ASCII. -/
def canonical : Layout := ⟨[',', ' '], [':', ' '], none, true⟩

/-- The break before an item or a closing bracket at a level. -/
def lineBreak (l : Layout) (level : Nat) : List Char :=
  match l.indent with
  | none => []
  | some width => '\n' :: List.replicate (width * level) ' '

/-- An escaped code unit. -/
def unit (n : Nat) : List Char :=
  '\\' :: 'u' :: Text.hex 4 n

/-- A character by its code units, two of them beyond the basic plane. -/
def units (c : Char) : List Char :=
  let n := c.toNat
  if n < 0x10000 then unit n
  else unit (0xD800 + (n - 0x10000) / 0x400) ++ unit (0xDC00 + (n - 0x10000) % 0x400)

def char (l : Layout) (c : Char) : List Char :=
  if c = '"' then ['\\', '"']
  else if c = '\\' then ['\\', '\\']
  else if c = '\n' then ['\\', 'n']
  else if c = '\r' then ['\\', 'r']
  else if c = '\t' then ['\\', 't']
  else if c = '\x08' then ['\\', 'b']
  else if c = '\x0c' then ['\\', 'f']
  else if c.toNat < 0x20 ∨ (l.ascii ∧ 0x7F ≤ c.toNat) then units c
  else [c]

def text (l : Layout) (s : String) : List Char :=
  '"' :: (s.toList.flatMap l.char ++ ['"'])

end Layout

/-- The sign of a number; there is none before a positive one. -/
def signChars (negative : Bool) : List Char := if negative then ['-'] else []

def integerChars : Int → List Char
  | .ofNat n => Nat.toDigits 10 n
  | .negSucc n => '-' :: Nat.toDigits 10 (n + 1)

mutual

/-- A value that starts at a level of indentation. -/
def write (l : Layout) (level : Nat) : Json → List Char
  | .null => ['n', 'u', 'l', 'l']
  | .bool true => ['t', 'r', 'u', 'e']
  | .bool false => ['f', 'a', 'l', 's', 'e']
  | .integer n => integerChars n
  | .decimal negative significand exponent =>
    signChars negative ++ Nat.toDigits 10 significand ++ 'e' :: integerChars exponent
  | .infinity negative => signChars negative ++ infinityWord
  | .nan => nanWord
  | .text s => l.text s
  | .array [] => ['[', ']']
  | .array (v :: vs) =>
    '[' :: (l.lineBreak (level + 1) ++ write l (level + 1) v ++ writeItems l level vs)
  | .object [] => ['\x7b', '\x7d']
  | .object ((k, v) :: ms) =>
    '\x7b' :: (l.lineBreak (level + 1) ++ l.text k ++ l.colon ++ write l (level + 1) v ++
      writeMembers l level ms)

/-- The items after the first, and the closing bracket. -/
def writeItems (l : Layout) (level : Nat) : List Json → List Char
  | [] => l.lineBreak level ++ [']']
  | v :: vs => l.comma ++ l.lineBreak (level + 1) ++ write l (level + 1) v ++ writeItems l level vs

/-- The members after the first, and the closing brace. -/
def writeMembers (l : Layout) (level : Nat) : List (String × Json) → List Char
  | [] => l.lineBreak level ++ ['\x7d']
  | (k, v) :: ms =>
    l.comma ++ l.lineBreak (level + 1) ++ l.text k ++ l.colon ++ write l (level + 1) v ++
      writeMembers l level ms

end

def render (l : Layout) (v : Json) : String :=
  String.ofList (write l 0 v)

end PolicyDelta.Json
