import PolicyDelta.Bzip2.Checksum
import PolicyDelta.Bzip2.Code
import PolicyDelta.Bzip2.Pieces
import PolicyDelta.Bzip2.Scrambling

/-! Blocks of bzip2 data. A block holds the codes of its symbols and the symbols, which give the
last column of the sorted rotations of its text, and the place of the text among the rotations. Runs
in the text are shortened, and its checksum is stored beside it. -/

namespace PolicyDelta.Bzip2

/-! ## The head of a block -/

/-- The bytes that occur in a block. -/
def usedBytes : BitReader (List UInt8) := do
  let groups ← bits 16
  let mut used := []
  for i in [0:16] do
    if groups.testBit (15 - i) then
      let members ← bits 16
      for j in [0:16] do
        if members.testBit (15 - j) then
          used := UInt8.ofNat (16 * i + j) :: used
  pure used.reverse

/-- The number of one bits before the next zero bit, less than a limit. -/
def unary (limit : Nat) : BitReader Nat := do
  for i in [0:limit] do
    if (← bit) = 0 then return i
  throw .invalid

/-- The member of a list at a place, and the list with that member moved to the front. -/
def moveToFront [Inhabited α] (l : List α) (i : Nat) : α × List α :=
  let a := l.getD i default
  (a, a :: (l.take i ++ l.drop (i + 1)))

def selectors (codes : Nat) : BitReader (Array Nat) := do
  let count ← bits 15
  require (1 ≤ count)
  let mut order := List.range codes
  let mut found := #[]
  for i in [0:count] do
    let place ← unary codes
    if i < maxSelectors then
      let (code, next) := moveToFront order place
      order := next
      found := found.push code
  pure found

/-- The length of a symbol's code, given by steps from the length before. -/
def codeLength : Nat → Nat → BitReader Nat
  | 0, _ => throw .truncated
  | fuel + 1, length => do
    require (1 ≤ length ∧ length ≤ maxCodeLength)
    if (← bit) = 0 then pure length
    else if (← bit) = 0 then codeLength fuel (length + 1)
    else codeLength fuel (length - 1)

def codeLengths (symbols : Nat) : BitReader (List Nat) := do
  let fuel := 8 * (← read).size
  let mut length ← bits 5
  let mut found := []
  for _ in [0:symbols] do
    length ← codeLength fuel length
    found := length :: found
  pure found.reverse

/-! ## The text of a block -/

/-- The last column of a block while it is being read. -/
structure Column where
  order : List UInt8
  bytes : Array UInt8 := #[]
  /-- The length of the run that is being read, and the weight of its next digit. -/
  run : Nat := 0
  weight : Nat := 1

/-- The column with its run written out; `limit` is the size of a block. -/
def Column.flush (c : Column) (limit : Nat) : BitReader Column := do
  require (c.bytes.size + c.run ≤ limit)
  pure { c with bytes := c.bytes ++ Array.replicate c.run (c.order.headD 0), run := 0, weight := 1 }

/-- The column after a digit of a run: the first symbol counts its weight once, the second twice. -/
def Column.digit (c : Column) (symbol : Nat) : BitReader Column := do
  require (c.weight < 2 * 1024 * 1024)
  pure { c with run := c.run + (symbol + 1) * c.weight, weight := 2 * c.weight }

/-- The column after a byte, given by its place among the bytes read last. -/
def Column.byte (c : Column) (symbol limit : Nat) : BitReader Column := do
  require (c.bytes.size < limit)
  let (b, order) := moveToFront c.order (symbol - 1)
  pure { c with bytes := c.bytes.push b, order }

/-- The symbols of a block up to the one that ends it. -/
def column (used : List UInt8) (codes : Array Code) (selectors : Array Nat) (limit : Nat) :
    BitReader (Array UInt8) := do
  let mut c : Column := { order := used }
  for s in selectors do
    for _ in [0:groupSize] do
      match codes[s]? with
      | none => throw .invalid
      | some code =>
        let symbol ← code.symbol
        if symbol ≤ 1 then
          c ← c.digit symbol
        else
          c ← c.flush limit
          if symbol = used.length + 1 then return c.bytes
          c ← c.byte symbol limit
  throw .invalid

/-- The text whose sorted rotations have a given last column, and the byte that comes next when it
is read round. -/
def unsort (column : Array UInt8) (start : Nat) : Array UInt8 :=
  let counts := column.foldl (fun (n : Array Nat) b => n.modify b.toNat (· + 1))
    (Array.replicate 256 0)
  let starts := (counts.foldl (fun (acc : Array Nat × Nat) n => (acc.1.push acc.2, acc.2 + n))
    (#[], 0)).1
  let next := (column.foldl (fun (acc : Array Nat × Array Nat × Nat) b =>
      let (next, places, i) := acc
      (next.set! (places[b.toNat]!) i, places.modify b.toNat (· + 1), i + 1))
    (Array.replicate column.size 0, starts, 0)).1
  ((List.range (column.size + 1)).foldl (fun (acc : Array UInt8 × Nat) _ =>
      (acc.1.push (column.getD acc.2 0), next.getD acc.2 0))
    (#[], next.getD start 0)).1

/-- A text with its runs written out: after four equal bytes stands how often the byte recurs. The
last run may lack that number. -/
def unrun (text : Array UInt8) : Array UInt8 × Bool :=
  let (out, equal, _) := text.foldl (fun (acc : Array UInt8 × Nat × UInt8) b =>
      let (out, equal, last) := acc
      if equal = 4 then (out ++ Array.replicate b.toNat last, 0, last)
      else if equal ≠ 0 ∧ b = last then (out.push b, equal + 1, b)
      else (out.push b, 1, b))
    (#[], 0, 0)
  (out, equal = 4)

/-- The text of a block from the text as it was sorted and the byte after it. `made` is the size of
the stream's text before it. A run that lacks its number takes that byte for it, and is refused when
it has been written; in scrambled text that takes room for one byte more. -/
def finish (made : Nat) (scrambled : Bool) (sorted : Array UInt8) (stored : Nat) :
    BitReader (Array UInt8 × UInt32) := do
  let (text, lacking) := unrun sorted.pop
  let size := made + text.size + if lacking then (sorted.back?.getD 0).toNat else 0
  let needed := if lacking ∧ scrambled then size + 1 else size
  if (← readToEnd) ∧ pieceEnd made < needed then throw .truncated
  require (!lacking)
  require ((crc text).toNat = stored)
  pure (text, crc text)

/-- A block after its header: the text and its checksum; `made` is the size of the stream's text
before it. -/
def block (limit made : Nat) : BitReader (Array UInt8 × UInt32) := do
  let stored ← bits 32
  let scrambled := (← bit) == 1
  let start ← bits 24
  require (start ≤ 10 + limit)
  let used ← usedBytes
  require (!used.isEmpty)
  let count ← bits 3
  require (2 ≤ count ∧ count ≤ 6)
  let selectors ← selectors count
  let mut codes := #[]
  for _ in [0:count] do
    codes := codes.push (Code.ofLengths (← codeLengths (used.length + 2)))
  let column ← column used codes selectors limit
  require (start < column.size)
  let sorted := unsort column start
  finish made scrambled (if scrambled then scramble sorted else sorted) stored

end PolicyDelta.Bzip2
