import PolicyDelta.Text.Hex
import PolicyDelta.Text.Printable

/-! Quoted texts, as names are shown in messages. The quote is single unless the text holds a
single quote and no double one; the quote and the backslash are escaped, line feed, carriage return
and tab have letters of their own, and any other unprintable character is written by the shortest
of three hexadecimal forms. -/

namespace PolicyDelta.Text

/-- The quote that needs no escape if one of the two does not. -/
def quoteFor (s : List Char) : Char :=
  if '\'' ∈ s ∧ '"' ∉ s then '"' else '\''

/-- One character between a given pair of quotes. -/
def quotedChar (quote c : Char) : List Char :=
  if c = quote ∨ c = '\\' then ['\\', c]
  else if c = '\n' then ['\\', 'n']
  else if c = '\r' then ['\\', 'r']
  else if c = '\t' then ['\\', 't']
  else if isPrintable c then [c]
  else if c.toNat < 0x100 then '\\' :: 'x' :: hex 2 c.toNat
  else if c.toNat < 0x10000 then '\\' :: 'u' :: hex 4 c.toNat
  else '\\' :: 'U' :: hex 8 c.toNat

def quoted (s : String) : String :=
  let quote := quoteFor s.toList
  String.ofList (quote :: (s.toList.flatMap (quotedChar quote) ++ [quote]))

end PolicyDelta.Text
