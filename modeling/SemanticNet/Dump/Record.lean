import SemanticNet.Dump.Bytes
import SemanticNet.Arena.Segment

/-!
# The record of an element

The form of one live element in a dump: its offset, its type, its marks and levels, the heads and
counts of its rings, and, for a connector, its ends and its four links. The mark of an erasure is
not kept. A record holds a connection exactly when its type is a connector's.
-/

namespace SemanticNet

/-- The marks of a record that are kept. -/
def keptFlags : UInt8 := 0xFE

namespace Dump

def ofAddress (a : Address) : Bytes := littleEndian 4 a.packed

def ofLink (l : RingLink) : Bytes := ofAddress l.prev ++ ofAddress l.next

def ofConnection : Option Connection → Bytes
  | none => [0]
  | some c =>
    1 :: (ofAddress c.source ++ ofAddress c.target ++ ofLink c.sourceOut ++ ofLink c.targetIn ++
      ofLink c.targetOut ++ ofLink c.sourceIn)

/-- The record of the element at an offset. -/
def ofElement (offset : UInt16) (e : Element) : Bytes :=
  littleEndian 2 offset.toNat ++ littleEndian 2 e.type.bits.toNat ++
    [e.flags &&& keptFlags, e.access.packed] ++
    ofAddress e.outgoing.first ++ ofAddress e.incoming.first ++
    littleEndian 4 e.outgoing.count.toNat ++ littleEndian 4 e.incoming.count.toNat ++
    ofConnection e.connection

end Dump

namespace Reader

def link : Reader RingLink := return ⟨← address, ← address⟩

def connection : Reader (Option Connection) := do
  match ← byte with
  | 0 => return none
  | 1 => return some ⟨← address, ← address, ← link, ← link, ← link, ← link⟩
  | _ => throw (.corrupt .connectorMarker)

/-- The offset and the element of the next record. -/
def element : Reader (UInt16 × Element) := do
  let offset ← half
  let type : ElementType := ⟨← half⟩
  if type.isUnknown then throw (.corrupt .unknownType)
  let flags ← byte
  let access ← Access.ofPacked <$> byte
  let firstOut ← address
  let firstIn ← address
  let outgoing : RingHead := ⟨firstOut, ← word⟩
  let incoming : RingHead := ⟨firstIn, ← word⟩
  let connection ← connection
  if connection.isSome != type.isConnector then throw (.corrupt .connectorMismatch)
  return (offset, { type, access, flags := flags &&& keptFlags, outgoing, incoming, connection })

end Reader

end SemanticNet
