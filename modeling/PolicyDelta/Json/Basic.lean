/-! JSON values. An integer is kept as it is, of any size; a number written with a fraction or an
exponent is kept exactly, as a decimal with a sign, which zero has too; and the infinities and what
is not a number are told apart from both. Members of an object keep their order and their
repetitions. -/

namespace PolicyDelta

/-- A JSON value. -/
inductive Json where
  | null
  | bool (b : Bool)
  | integer (n : Int)
  /-- The number `significand * 10 ^ exponent` with a sign, written with a fraction or an
  exponent. -/
  | decimal (negative : Bool) (significand : Nat) (exponent : Int)
  | infinity (negative : Bool)
  /-- What is not a number. -/
  | nan
  | text (s : String)
  | array (items : List Json)
  | object (members : List (String × Json))
deriving Inhabited

namespace Json

def member? (name : String) (members : List (String × Json)) : Option Json :=
  members.foldl (fun found m => if m.1 = name then some m.2 else found) none

/-- How infinity is written. -/
def infinityWord : List Char := ['I', 'n', 'f', 'i', 'n', 'i', 't', 'y']

/-- How what is not a number is written. -/
def nanWord : List Char := ['N', 'a', 'N']

/-- What a text may hold. -/
structure Limits where
  /-- The number of arrays and objects with content that may lie in one another. -/
  depth : Nat
  /-- The length of a number's whole part with its sign. -/
  length : Nat
deriving DecidableEq

def Limits.standard : Limits := ⟨200, 4300⟩

end Json

end PolicyDelta
