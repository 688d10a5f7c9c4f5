import SemanticNet.Element

/-!
# Metrics

Counts of what happened to a store since it was opened. They never decrease. A counter has room for
`2 ^ 64 - 1` events, which are taken to be more than ever happen, so the counts are plain numbers.
-/

namespace SemanticNet

/-- Something worth counting. -/
inductive Event where
  | created (kind : Kind)
  | erased (kind : Kind)
  | segmentAdded
  | refusedFull
  | scanned (d : Direction)
deriving DecidableEq, Repr

structure Metrics where
  nodesCreated : Nat := 0
  nodesErased : Nat := 0
  linksCreated : Nat := 0
  linksErased : Nat := 0
  connectorsCreated : Nat := 0
  connectorsErased : Nat := 0
  segmentsAllocated : Nat := 0
  fullMemoryRefusals : Nat := 0
  ringScansOut : Nat := 0
  ringScansIn : Nat := 0
deriving DecidableEq, Inhabited, Repr

/-- Counts an event that happened `n` times. -/
def Metrics.count (m : Metrics) (n : Nat) : Event → Metrics
  | .created .node => { m with nodesCreated := m.nodesCreated + n }
  | .created .link => { m with linksCreated := m.linksCreated + n }
  | .created .connector => { m with connectorsCreated := m.connectorsCreated + n }
  | .erased .node => { m with nodesErased := m.nodesErased + n }
  | .erased .link => { m with linksErased := m.linksErased + n }
  | .erased .connector => { m with connectorsErased := m.connectorsErased + n }
  | .segmentAdded => { m with segmentsAllocated := m.segmentsAllocated + n }
  | .refusedFull => { m with fullMemoryRefusals := m.fullMemoryRefusals + n }
  | .scanned .outgoing => { m with ringScansOut := m.ringScansOut + n }
  | .scanned .incoming => { m with ringScansIn := m.ringScansIn + n }

end SemanticNet
