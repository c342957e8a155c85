import PolicyDelta.Bzip2.Block

/-! Decompression of bzip2 data. A stream is a header, blocks and a trailer with a checksum. Data
may hold several streams, one after the other. -/

namespace PolicyDelta.Bzip2

def blocks (limit : Nat) : Nat → UInt32 → Array UInt8 → BitReader (Array UInt8)
  | 0, _, _ => throw .truncated
  | fuel + 1, checksum, text => do
    let first ← bits 8
    if first = 0x17 then
      expect [0x72, 0x45, 0x38, 0x50, 0x90]
      require ((← bits 32) == checksum.toNat)
      pure text
    else
      require (first = 0x31)
      expect [0x41, 0x59, 0x26, 0x53, 0x59]
      let (more, c) ← block limit text.size
      blocks limit fuel (combine checksum c) (text ++ more)

def stream : BitReader (Array UInt8) := do
  expect [0x42, 0x5a, 0x68]
  let level ← bits 8
  require (0x31 ≤ level ∧ level ≤ 0x39)
  blocks ((level - 0x30) * 100000) (8 * (← read).size) 0 #[]

/-- The text of a stream and what follows the bytes that it takes. -/
def nextStream (bytes : ByteArray) : Except Failure (Array UInt8 × ByteArray) := do
  let (text, read) ← (stream.run bytes).run 0
  pure (text, bytes.extract ((read + 7) / 8) bytes.size)

/-- A text and those of all streams that follow it; what follows the last stream is left out. -/
def streams : Nat → ByteArray → Array UInt8 → Except Failure (Array UInt8)
  | 0, _, text => .ok text
  | fuel + 1, bytes, text =>
    if bytes.isEmpty then .ok text
    else
      match nextStream bytes with
      | .ok (more, rest) => streams fuel rest (text ++ more)
      | .error .truncated => .error .truncated
      | .error .invalid => .ok text

/-- The decompressed data, which start with a stream. -/
def decompress (bytes : ByteArray) : Except Failure ByteArray := do
  let (text, rest) ← nextStream bytes
  (streams bytes.size rest text).map ByteArray.mk

end PolicyDelta.Bzip2
