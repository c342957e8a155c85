/-! Reading bits. Data are read from the most significant bit of the first byte on. -/

namespace PolicyDelta.Bzip2

/-- Why data cannot be decompressed. -/
inductive Failure where
  /-- The data are not a stream. -/
  | invalid
  /-- The data end inside a stream. -/
  | truncated
deriving DecidableEq

/-- Reading bits: the data are fixed and the state is the number of bits that have been read. -/
abbrev BitReader := ReaderT ByteArray (StateT Nat (Except Failure))

def bit : BitReader Nat := do
  let bytes ← read
  let p ← get
  if h : p / 8 < bytes.size then
    set (p + 1)
    pure (((bytes.get (p / 8) h).toNat >>> (7 - p % 8)) % 2)
  else throw .truncated

/-- The number in the next bits, the most significant first. -/
def bits : Nat → BitReader Nat
  | 0 => pure 0
  | n + 1 => do
    let high ← bits n
    let low ← bit
    pure (2 * high + low)

/-- Whether some bit of every byte has been read. -/
def readToEnd : BitReader Bool := do
  pure ((← read).size ≤ ((← get) + 7) / 8)

/-- Requires a condition of valid data. -/
def require (condition : Bool) : BitReader Unit :=
  if condition then pure () else throw .invalid

/-- Requires the next bytes to be given ones. -/
def expect (bytes : List Nat) : BitReader Unit :=
  bytes.forM fun b => do require ((← bits 8) == b)

end PolicyDelta.Bzip2
