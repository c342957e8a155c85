/-! Pieces of text. The text of a stream is made in pieces of growing sizes, and another piece is
begun only while there are data that have not been read. So a block that ends the data and whose
text does not fit into the piece at hand is truncated, and no fault at its end is found. -/

namespace PolicyDelta.Bzip2

/-- The sizes of the first pieces, in units of 1024 bytes. -/
def firstPieces : List Nat :=
  [32, 64, 256, 1024, 4096, 8192, 16384, 16384, 32768, 32768, 32768, 32768, 65536, 65536, 131072,
    131072]

/-- The size of every other piece. -/
def laterPiece : Nat := 262144 * 1024

/-- The end of the piece at hand after `size` bytes, when pieces of the given sizes start at a
place; a piece that is full is still at hand. -/
def pieceEndFrom (size : Nat) : List Nat → Nat → Nat
  | [], start => start + (size - start + laterPiece - 1) / laterPiece * laterPiece
  | units :: more, start =>
    let fin := start + units * 1024
    if size ≤ fin then fin else pieceEndFrom size more fin

/-- The end of the piece at hand after `size` bytes of text. -/
def pieceEnd (size : Nat) : Nat := pieceEndFrom size firstPieces 0

end PolicyDelta.Bzip2
