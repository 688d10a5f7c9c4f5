import SemanticNet.Walk.Triples
import SemanticNet.Store.Basic

/-!
# Walks over quintuples

A quintuple is a triple together with a connector that marks the triple's own connector, and the
element that this mark comes from. The walk is a nested one: for each triple of the first three
terms it yields the marks of the triple's connector.
-/

namespace SemanticNet

/-- The terms for a triple, for the mark of its connector and for the origin of the mark. -/
structure MarkedPattern where
  main : Pattern
  mark : Term
  origin : Term
deriving DecidableEq, Inhabited, Repr

/-- A triple, the mark of its connector, and the origin of the mark. -/
structure Quintuple where
  main : Triple := {}
  mark : Address := .empty
  origin : Address := .empty
deriving DecidableEq, Inhabited, Repr

def Quintuple.toList (q : Quintuple) : List Address := q.main.toList ++ [q.mark, q.origin]

/-- A walk over the quintuples that fit a pattern: the walk over the triples and, once there is one,
the walk over the marks of its connector. -/
structure Quintuples where
  main : Triples
  marks : Option Triples := none
  mark : Term
  origin : Term
  done : Bool := false
  current : Quintuple := {}
deriving DecidableEq, Inhabited, Repr

namespace Quintuples

/-- A walk over a pattern whose first three terms name some element. -/
def open? (pattern : MarkedPattern) (levels : Access) : Except Failure Quintuples := do
  let main ← Triples.open? pattern.main levels
  if pattern.mark.fixed? = some .empty || pattern.origin.fixed? = some .empty then
    throw (.invalidParams .emptyAttribute)
  return { main, mark := pattern.mark, origin := pattern.origin }

/-- The element at a position of the current quintuple. -/
def at? (w : Quintuples) (i : Nat) : Except Failure Address :=
  match w.current.toList[i]? with
  | some a => .ok a
  | none => .error (.invalidParams .quintuplePosition)

/-- The walk over the marks of the current triple. -/
def marksOf (w : Quintuples) : Triples :=
  { pattern := ⟨w.origin, w.mark, .fixed w.main.current.connector⟩, levels := w.main.levels }

/-- The walk over the marks of the current triple at its next mark, if there is one. -/
def nextMark? (w : Quintuples) (t : Arena) : Option Triples × Scans :=
  match w.marks with
  | none => (none, {})
  | some marks =>
    let (marks, n) := marks.advance t
    (if marks.isDone then none else some marks, n)

/-- The walk at its end. -/
def finish (w : Quintuples) : Quintuples := { w with marks := none, done := true, current := {} }

/-- The walk at its next quintuple or, when there is none, at its end. At most `fuel` triples are
tried. -/
def advanceFrom (w : Quintuples) (t : Arena) : Nat → Quintuples × Scans
  | 0 => (w.finish, {})
  | fuel + 1 =>
    match w.nextMark? t with
    | (some marks, n) =>
      let current := ⟨w.main.current, marks.current.connector, marks.current.source⟩
      ({ w with marks := some marks, current }, n)
    | (none, n) =>
      let (main, m) := w.main.advance t
      let w := { w with main }
      if main.isDone then (w.finish, n + m)
      else
        let (w, k) := { w with marks := some w.marksOf }.advanceFrom t fuel
        (w, n + m + k)

/-- The walk at its next quintuple or, when there is none, at its end. A walk over triples that has
yielded more of them than there are slots repeats itself. -/
def advance (w : Quintuples) (t : Arena) : Quintuples × Scans :=
  if w.done then (w, {}) else w.advanceFrom t (t.engaged + 2)

/-- The next quintuples of a walk, at most `limit` of them. -/
def take (t : Arena) : Nat → Quintuples → List Quintuple × Scans
  | 0, _ => ([], {})
  | limit + 1, w =>
    let (w, n) := w.advance t
    if w.done then ([], n)
    else
      let (rest, m) := take t limit w
      (w.current :: rest, n + m)

end Quintuples

namespace Store

def noteScans (s : Store) (n : Scans) : Store :=
  (s.count (.scanned .outgoing) n.outgoing).count (.scanned .incoming) n.incoming

/-- Moves a walk over triples on, and counts the members of rings that were looked at. -/
def advanceTriples (w : Triples) (s : Store) : Triples × Store :=
  let (w, n) := w.advance s.arena
  (w, s.noteScans n)

/-- Moves a walk over quintuples on, and counts the members of rings that were looked at. -/
def advanceQuintuples (w : Quintuples) (s : Store) : Quintuples × Store :=
  let (w, n) := w.advance s.arena
  (w, s.noteScans n)

/-- More triples than any walk over an undamaged store yields. -/
def tripleBound (s : Store) : Nat := s.arena.engaged + 1

/-- The triples that fit a pattern, at most `limit` of them. -/
def triples (pattern : Pattern) (levels : Access) (limit : Option Nat) :
    Step Store (List Triple) := do
  let w ← Triples.open? pattern levels
  let s ← get
  let (found, n) := w.take s.arena (limit.getD s.tripleBound)
  Step.change (·.noteScans n)
  return found

/-- The quintuples that fit a pattern, at most `limit` of them. -/
def quintuples (pattern : MarkedPattern) (levels : Access) (limit : Option Nat) :
    Step Store (List Quintuple) := do
  let w ← Quintuples.open? pattern levels
  let s ← get
  let (found, n) := w.take s.arena (limit.getD (s.tripleBound * s.tripleBound))
  Step.change (·.noteScans n)
  return found

end Store

end SemanticNet
