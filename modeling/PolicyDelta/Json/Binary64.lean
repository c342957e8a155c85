import PolicyDelta.Json.Basic

/-! Numbers with a fraction or an exponent are read as binary numbers of 64 bits: the nearest number
of 53 significant bits, to the even one from halfway, with exponents between -1074 and 971. -/

namespace PolicyDelta.Json

/-- A binary number of 64 bits: `significand * 2 ^ exponent`, or beyond all of them, with a sign. -/
inductive Binary64 where
  | finite (negative : Bool) (significand : Nat) (exponent : Int)
  | infinite (negative : Bool)
deriving DecidableEq

namespace Binary64

/-- The quotient rounded to the nearest, halves to the even one. -/
def roundDiv (num den : Nat) : Nat :=
  let q := num / den
  let r := num % den
  if 2 * r < den ∨ (2 * r = den ∧ q % 2 = 0) then q else q + 1

/-- The number of bits of a significand. -/
def precision : Nat := 53

/-- The smallest exponent. -/
def minExponent : Int := -1074

/-- The nearest number to a quotient of positive numbers. -/
def ofRatio (negative : Bool) (num den : Nat) : Binary64 :=
  let scale : Int := (num.log2 : Int) - den.log2
  -- the quotient lies strictly between `2 ^ (scale - 1)` and `2 ^ (scale + 1)`
  let below := if 0 ≤ scale then num < den <<< scale.toNat else num <<< (-scale).toNat < den
  let top := if below then scale - 1 else scale
  let e := max (top - (precision - 1 : Nat)) minExponent
  let significand :=
    if 0 ≤ e then roundDiv num (den <<< e.toNat) else roundDiv (num <<< (-e).toNat) den
  if 0 ≤ e ∧ 1 <<< 1024 ≤ significand <<< e.toNat then .infinite negative
  else .finite negative significand e

/-- The nearest number to `n * 10 ^ exponent`. Decimals of more than 310 digits before
the point are beyond all, and those below `10 ^ -330` are nearest to zero. -/
def ofDecimal (negative : Bool) (n : Nat) (exponent : Int) : Binary64 :=
  if n = 0 then .finite negative 0 0
  else
    let places : Int := (Nat.toDigits 10 n).length + exponent
    if places > 310 then .infinite negative
    else if places < -330 then .finite negative 0 0
    else if 0 ≤ exponent then ofRatio negative (n * Nat.pow 10 exponent.toNat) 1
    else ofRatio negative n (Nat.pow 10 (-exponent).toNat)

/-- The integer that a number is, unless it has a fraction. -/
def toInt? : Binary64 → Option Int
  | .infinite _ => none
  | .finite negative significand exponent =>
    let magnitude : Option Nat :=
      if 0 ≤ exponent then some (significand <<< exponent.toNat)
      else
        let whole := significand >>> (-exponent).toNat
        if whole <<< (-exponent).toNat = significand then some whole else none
    magnitude.map fun m => if negative then -(m : Int) else m

end Binary64

end PolicyDelta.Json
