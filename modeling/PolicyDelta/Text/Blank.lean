/-! Blank characters. Three classes are told apart: the blanks of ASCII, the characters with the
Unicode property White_Space, and those together with the four information separators. -/

namespace PolicyDelta.Text

/-- Space, tab, line feed, vertical tab, form feed and carriage return. -/
def isAsciiBlank (n : Nat) : Bool :=
  n == 0x20 || (0x09 ≤ n && n ≤ 0x0D)

/-- The Unicode property White_Space. -/
def isWhiteSpace (c : Char) : Bool :=
  let n := c.toNat
  isAsciiBlank n || n == 0x85 || n == 0xA0 || n == 0x1680 || (0x2000 ≤ n && n ≤ 0x200A) ||
    n == 0x2028 || n == 0x2029 || n == 0x202F || n == 0x205F || n == 0x3000

/-- White space or one of the information separators U+001C to U+001F. -/
def isSpacing (c : Char) : Bool :=
  isWhiteSpace c || (0x1C ≤ c.toNat && c.toNat ≤ 0x1F)

/-- A text without its leading and trailing characters of a class. -/
def trimmed (blank : Char → Bool) (s : List Char) : List Char :=
  ((s.dropWhile blank).reverse.dropWhile blank).reverse

end PolicyDelta.Text
