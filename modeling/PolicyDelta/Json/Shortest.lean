import PolicyDelta.Json.Binary64

/-! Texts of binary numbers. Of all decimals that are read as a number, those with the fewest digits
are looked for, and the nearest of them is written. -/

namespace PolicyDelta.Json.Binary64

/-- A positive number and the ends of the interval of what is read as it, as multiples of one power
of ten. -/
structure Span where
  low : Nat
  value : Nat
  high : Nat
  /-- The ends are read as the number, too. -/
  closed : Bool
  exponent : Int

namespace Span

/-- The span of `significand * 2 ^ exponent`. The ends lie halfway to the next numbers, and the next
number below a power of two is half as far away as the one above. -/
def ofParts (significand : Nat) (exponent : Int) : Span :=
  let bottom := 1 <<< (precision - 1)
  let (m, e) :=
    if significand = 2 * bottom then (bottom, exponent + 1) else (significand, exponent)
  -- a quarter of the distance to the next number above
  let quarter := if 2 ≤ e then 1 <<< (e - 2).toNat else Nat.pow 5 (2 - e).toNat
  let below := if m = bottom ∧ minExponent < e then 1 else 2
  { low := (4 * m - below) * quarter
    value := 4 * m * quarter
    high := (4 * m + 2) * quarter
    closed := m % 2 = 0
    exponent := min (e - 2) 0 }

/-- Whether a multiple of the power of ten is read as the number. -/
def holds (s : Span) (n : Nat) : Bool :=
  if s.closed then s.low ≤ n && n ≤ s.high else s.low < n && n < s.high

/-- How often a step goes into what is read as the number; of two ways the nearer to the number, and
the even one from halfway. -/
def multiple? (s : Span) (step : Nat) : Option Nat :=
  let q := roundDiv s.value step
  let other := if q * step ≤ s.value then q + 1 else q - 1
  if s.holds (q * step) then some q else if s.holds (other * step) then some other else none

/-- The digits and the exponent of ten of a decimal with the fewest digits. -/
def fewest (s : Span) : Nat × Int :=
  let size := s.value.repr.length
  let found := (List.range size).findSome? fun i =>
    let places := size - 1 - i
    (s.multiple? (Nat.pow 10 places)).map fun n => (n, s.exponent + (places : Int))
  found.getD (s.value, s.exponent)

end Span

/-- The text of `n * 10 ^ exponent`. From `10 ^ -4` on and below `10 ^ 16` the point stands in its
place, with a digit on either side; other numbers have it after their first digit, and an exponent
of two digits or more. -/
def decimalText (n : Nat) (exponent : Int) : String :=
  let all := n.repr.toList
  let ds := (all.reverse.dropWhile (· == '0')).reverse
  let point := (all.length : Int) + exponent
  let zeros (k : Int) : List Char := List.replicate k.toNat '0'
  String.ofList <|
    if -4 < point ∧ point ≤ 0 then '0' :: '.' :: (zeros (-point) ++ ds)
    else if 0 < point ∧ point ≤ 16 then
      let whole := ds.take point.toNat
      let fraction := ds.drop point.toNat
      whole ++ zeros (point - whole.length) ++ '.' :: (if fraction = [] then ['0'] else fraction)
    else
      let rest := ds.drop 1
      let power := (point - 1).natAbs.repr.toList
      ds.take 1 ++ (if rest = [] then [] else '.' :: rest) ++
        'e' :: (if point < 1 then '-' else '+') :: (zeros (2 - power.length) ++ power)

def text : Binary64 → String
  | .infinite negative => if negative then "-inf" else "inf"
  | .finite negative significand exponent =>
    let (n, e) := (Span.ofParts significand exponent).fewest
    (if negative then "-" else "") ++ if significand = 0 then "0.0" else decimalText n e

end PolicyDelta.Json.Binary64
