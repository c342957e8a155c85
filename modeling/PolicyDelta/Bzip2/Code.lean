import PolicyDelta.Bzip2.Bits

/-! Codes of symbols. A code is given by the length of each symbol's bit string alone: shorter
strings come first, and strings of one length go by the order of the symbols. -/

namespace PolicyDelta.Bzip2

def maxCodeLength : Nat := 20

/-- The number of symbols that follow one selector. -/
def groupSize : Nat := 50

/-- The most selectors that can be of use. -/
def maxSelectors : Nat := 18002

/-- A code, given by the length for each symbol: `limit` is the last code of a length and `base`
what is to be taken from a code of that length to get its place in `symbols`. -/
structure Code where
  minLength : Nat
  limit : Array Int
  base : Array Int
  symbols : Array Nat

/-- The code with given lengths, in which shorter codes and smaller symbols come first. -/
def Code.ofLengths (lengths : List Nat) : Code :=
  let count (n : Nat) : Nat := lengths.countP (· = n)
  let upTo (n : Nat) : Nat := lengths.countP (· < n)
  let minLength := lengths.foldl min 32
  let maxLength := lengths.foldl max 0
  let symbols := (List.range (maxLength + 1)).flatMap fun n =>
    (lengths.zipIdx.filter (·.1 = n)).map Prod.snd
  -- the first code that is longer than each length
  let ends := (List.range (maxCodeLength + 1)).foldl (fun (acc : List Nat × Nat) n =>
      if minLength ≤ n ∧ n ≤ maxLength then
        let next := acc.2 + count n
        (next :: acc.1, 2 * next)
      else (0 :: acc.1, acc.2)) ([], 0)
  let ends := ends.1.reverse.toArray
  let inRange (n : Nat) : Bool := minLength ≤ n && n ≤ maxLength
  { minLength
    limit := (Array.range (maxCodeLength + 1)).map fun n =>
      if inRange n then (ends[n]! : Int) - 1 else 0
    base := (Array.range (maxCodeLength + 1)).map fun n =>
      if minLength < n ∧ n ≤ maxLength then 2 * (ends[n - 1]! : Int) - upTo n else upTo n
    symbols := symbols.toArray }

/-- The next symbol, read bit by bit from the shortest code on. -/
def Code.symbol (c : Code) : BitReader Nat := do
  let first ← bits c.minLength
  go (maxCodeLength + 2 - c.minLength) c.minLength first
where
  /-- The symbol that starts with the bits that have been read. -/
  go : Nat → Nat → Nat → BitReader Nat
    | 0, _, _ => throw .invalid
    | fuel + 1, length, code => do
      require (length ≤ maxCodeLength)
      if (code : Int) ≤ c.limit[length]! then
        let place := (code : Int) - c.base[length]!
        require (0 ≤ place ∧ place < 258)
        pure (c.symbols.getD place.toNat 0)
      else
        let low ← bit
        go fuel (length + 1) (2 * code + low)

end PolicyDelta.Bzip2
