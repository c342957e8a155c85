/-! Checksums of bzip2 data: remainders of polynomials over two elements, most significant bit
first. -/

namespace PolicyDelta.Bzip2

/-- The generator of the checksum. -/
def polynomial : UInt32 := 0x04c11db7

/-- The remainder of a byte that is followed by as many zero bits as a checksum has. -/
def byteRemainder (byte : UInt8) : UInt32 :=
  (List.range 8).foldl (fun c _ =>
      if c &&& 0x80000000 = 0 then c <<< 1 else (c <<< 1) ^^^ polynomial)
    (byte.toUInt32 <<< 24)

/-- The remainders of all bytes. -/
def byteRemainders : Array UInt32 :=
  (Array.range 256).map fun n => byteRemainder (UInt8.ofNat n)

/-- The checksum after another byte. -/
def crcStep (crc : UInt32) (byte : UInt8) : UInt32 :=
  (crc <<< 8) ^^^ byteRemainders.getD ((crc >>> 24).toUInt8 ^^^ byte).toNat 0

def crc (text : Array UInt8) : UInt32 :=
  (text.foldl crcStep 0xffffffff) ^^^ 0xffffffff

/-- The checksum of a stream after another block. -/
def combine (stream block : UInt32) : UInt32 :=
  ((stream <<< 1) ||| (stream >>> 31)) ^^^ block

end PolicyDelta.Bzip2
