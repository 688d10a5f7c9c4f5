import SemanticNet.Store.Basic

/-!
# Occupancy

How many elements a store holds, how full its segments are, and the count of its elements from
scratch.
-/

namespace SemanticNet

/-- The elements of each kind, the engaged segments and their free slots. -/
structure Statistics where
  census : Census
  segments : Nat
  vacant : Nat
deriving DecidableEq, Inhabited, Repr

/-- How full one segment is. -/
structure SegmentUsage where
  number : Nat
  capacity : Nat
  lastEngaged : Nat
  live : Nat
deriving DecidableEq, Inhabited, Repr

namespace Store

def statistics (s : Store) : Statistics :=
  ⟨s.census, s.arena.segments.size, s.arena.vacant⟩

/-- The usage of each segment, in order. -/
def usage (s : Store) : List SegmentUsage :=
  (s.arena.segments.toList.zipIdx 1).map fun (g, n) => ⟨n, s.arena.capacity, g.slots.size, g.live⟩

/-- Counts the elements of each kind anew. -/
def recount (s : Store) : Store :=
  { s with census := s.arena.elements.foldl (fun c (_, e) => c.add e.type.sort) {} }

end Store

end SemanticNet
