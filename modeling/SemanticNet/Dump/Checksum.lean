import SemanticNet.Contents

/-!
# The checksum

The cyclic redundancy check of 32 bits that many file formats use. Each bit of input moves a
register by one place and, when a one falls out, adds the polynomial.
-/

namespace SemanticNet.Crc32

/-- The polynomial with its bits reversed. -/
def polynomial : UInt32 := 0xEDB88320

/-- Moves the register by one bit. -/
def shift (r : UInt32) : UInt32 :=
  if r &&& 1 = 1 then (r >>> 1) ^^^ polynomial else r >>> 1

/-- Moves the register by the eight bits of a byte. -/
def feed (r : UInt32) (b : UInt8) : UInt32 := Nat.repeat shift 8 (r ^^^ b.toUInt32)

/-- The register after a string of bytes. -/
def register (bytes : Bytes) : UInt32 := bytes.foldl feed 0xFFFFFFFF

/-- The check of a string of bytes. -/
def check (bytes : Bytes) : UInt32 := ~~~register bytes

end SemanticNet.Crc32
