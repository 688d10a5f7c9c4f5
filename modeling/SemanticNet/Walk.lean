import SemanticNet.Walk.Quintuples

/-!
# Walks

A walk over triples or over quintuples, for a caller that keeps walks of both sorts.
-/

namespace SemanticNet

inductive Walk where
  | triples (w : Triples)
  | quintuples (w : Quintuples)
deriving DecidableEq, Inhabited, Repr

namespace Walk

/-- The elements of the current tuple. -/
def current : Walk → List Address
  | triples w => w.current.toList
  | quintuples w => w.current.toList

def isDone : Walk → Bool
  | triples w => w.isDone
  | quintuples w => w.done

/-- The element at a position of the current tuple. -/
def at? (i : Nat) : Walk → Except Failure Address
  | triples w => w.at? i
  | quintuples w => w.at? i

/-- Moves a walk on, and counts the members of rings that were looked at. -/
def advance (s : Store) : Walk → Walk × Store
  | triples w =>
    let (w, s) := s.advanceTriples w
    (triples w, s)
  | quintuples w =>
    let (w, s) := s.advanceQuintuples w
    (quintuples w, s)

end Walk

end SemanticNet
