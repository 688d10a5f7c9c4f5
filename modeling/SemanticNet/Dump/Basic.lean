import SemanticNet.Dump.SegmentImage
import SemanticNet.Dump.Checksum
import SemanticNet.Store.Usage

/-!
# Dumps

A dump is a store as one string of bytes: a header, the segments, the contents of the links in
address order, and a checksum of all that. The checksum is a parameter of `encode` and `decode`.
Addresses and free chains survive. Which segment is tried first does not: a store that was read back
starts from the first one that has room.
-/

namespace SemanticNet.Dump

/-- The first bytes of every dump. -/
def signature : Bytes := [0x53, 0x43, 0x4D, 0x45, 0x4D, 0x44, 0x42, 0]

def formatVersion : Nat := 1

/-- What a dump holds, and its size. -/
structure Summary where
  segments : Nat
  elements : Nat
  contents : Nat
  bytes : Nat
deriving DecidableEq, Inhabited, Repr

/-! ## Writing -/

def header (t : Arena) : Bytes :=
  signature ++ littleEndian 2 formatVersion ++ littleEndian 2 t.capacity ++
    littleEndian 2 t.segments.size

def ofSegments (t : Arena) : Bytes :=
  (t.segments.toList.zipIdx 1).flatMap fun (s, n) => (SegmentImage.of n t.capacity s).toBytes

def ofContents (c : Contents byteHash) : Bytes :=
  littleEndian 4 c.size ++
    c.toList.flatMap fun (a, bytes) => ofAddress a ++ littleEndian 4 bytes.length ++ bytes

/-- All of a dump but its checksum. -/
def body (s : Store) : Bytes := header s.arena ++ ofSegments s.arena ++ ofContents s.contents

/-- The dump of a store. -/
def encode (check : Bytes → UInt32) (s : Store) : Bytes :=
  let bytes := body s
  bytes ++ littleEndian 4 (check bytes).toNat

def summarize (s : Store) (bytes : Bytes) : Summary :=
  ⟨s.arena.segments.size, s.arena.elements.length, s.contents.size, bytes.length⟩

/-! ## Reading -/

/-- The capacity and the number of segments of a dump. -/
def readHeader : Reader (UInt16 × UInt16) := do
  if (← .take signature.length) ≠ signature then throw (.corrupt .signature)
  if (← .number 2) ≠ formatVersion then throw (.corrupt .version)
  let capacity ← .half
  let count ← .half
  if capacity = 0 then throw (.corrupt .zeroCapacity)
  return (capacity, count)

/-- The next `n` segments, behind the ones of `t`. -/
def readSegments (t : Arena) : Nat → Reader Arena
  | 0 => return t
  | n + 1 => do
    let image ← .segment
    let s ← image.restore t.capacity
    if image.number.toNat ≠ t.segments.size + 1 then throw (.corrupt .segmentSequence)
    readSegments { t with segments := t.segments.push s } n

/-- The next `n` contents. They may belong to links only. -/
def readContents (t : Arena) (c : Contents byteHash) : Nat → Reader (Contents byteHash)
  | 0 => return c
  | n + 1 => do
    let a ← .address
    let bytes ← .take (← .number 4)
    unless (t.find? a).any (·.type.isLink) do throw (.corrupt .contentOwner)
    readContents t (c.set a bytes) n

/-- The store of a dump without its checksum, and the number of contents that it announces. The
capacity of the segments is that of the dump, and the limit on segments is raised if the dump has
more. -/
def readBody (settings : Settings) : Reader (Store × Nat) := do
  let (capacity, count) ← readHeader
  let blank := Store.ofSettings
    { settings with segmentCapacity := capacity, maxSegments := max settings.maxSegments count }
  let arena ← readSegments blank.arena count.toNat
  let n ← .number 4
  let contents ← readContents arena {} n
  Reader.done
  return ({ blank with arena := arena.refreshHint, contents }.recount, n)

/-- The store of a dump. -/
def decode (check : Bytes → UInt32) (settings : Settings) (bytes : Bytes) :
    Except Failure (Store × Summary) := do
  let some (body, trailer) := splitExactly (bytes.length - 4) bytes
    | throw (.corrupt .truncated)
  if trailer.length < 4 then throw (.corrupt .truncated)
  if (check body).toNat ≠ ofLittleEndian trailer then throw (.corrupt .checksum)
  let (s, contents) ← (readBody settings).run' body
  return (s, ⟨s.arena.segments.size, s.arena.elements.length, contents, bytes.length⟩)

end SemanticNet.Dump
