import SemanticNet.Walk.Pattern
import SemanticNet.Failure

/-!
# Walks over triples

A walk yields the triples that fit a pattern, one at a time, and keeps its place while the arena
changes between two of them. A pattern with an open connector walks the outgoing ring of its source
or, if the source is open too, the incoming ring of its target. A pattern that names its connector
yields one triple at most. All three elements of a triple have to be readable.
-/

namespace SemanticNet

/-- Where a walk is: before its first triple, at the connector of its last triple, or at its end. -/
inductive Cursor where
  | start
  | at (c : Address)
  | done
deriving DecidableEq, Inhabited, Repr

/-- A walk over the triples that fit a pattern, read with the given levels. Before the first triple
and after the last one `current` is empty. -/
structure Triples where
  pattern : Pattern
  levels : Access
  cursor : Cursor := .start
  current : Triple := {}
deriving DecidableEq, Inhabited, Repr

namespace Triples

/-- A walk over a pattern that names some element. -/
def open? (pattern : Pattern) (levels : Access) : Except Failure Triples :=
  if pattern.shape?.isSome then .ok { pattern, levels }
  else .error (.invalidParams .nothingFixed)

def isDone (w : Triples) : Bool := w.cursor == .done

/-- The walk at its end. -/
def finish (w : Triples) : Triples := { w with cursor := .done, current := {} }

/-- The element at a position of the current triple. -/
def at? (w : Triples) (i : Nat) : Except Failure Address :=
  match w.current.toList[i]? with
  | some a => .ok a
  | none => .error (.invalidParams .triplePosition)

/-- The end of the connector `c` across from `anchor`, if both fit and may be read. -/
def match? (w : Triples) (t : Arena) (anchor c : Address) (d : Direction) : Option Address := do
  let type ← t.readable? w.levels c
  let other ← (← (← t.find? c).connection).opposite? anchor
  if !w.pattern.connector.accepts c type then none
  let term := match d with
    | .outgoing => w.pattern.target
    | .incoming => w.pattern.source
  if term.accepts other (← t.readable? w.levels other) then some other else none

/-- The first member of a ring from `c` on that fits, with its other end, and how many members were
looked at. After `fuel` members the search ends. -/
def search (w : Triples) (t : Arena) (anchor : Address) (d : Direction) :
    Nat → Address → Option (Address × Address) × Nat
  | 0, _ => (none, 0)
  | fuel + 1, c =>
    match w.match? t anchor c d with
    | some other => (some (c, other), 1)
    | none =>
      match t.next? c anchor d with
      | none => (none, 1)
      | some c' =>
        let (found, n) := w.search t anchor d fuel c'
        (found, n + 1)

/-- The member of a ring from which the search goes on. -/
def resume? (w : Triples) (t : Arena) (anchor : Address) (d : Direction) : Option Address :=
  match w.cursor with
  | .start => do
    let _ ← t.readable? w.levels anchor
    let head := ((← t.find? anchor).ring d).first
    if head.isEmpty then none else some head
  | .at c => t.next? c anchor d
  | .done => none

/-- The next triple of a walk along a ring. A ring whose members do not lead back to its head within
as many steps as there are slots never does. -/
def advanceInRing (w : Triples) (t : Arena) (anchor : Address) (d : Direction) :
    Triples × Scans :=
  match w.resume? t anchor d with
  | none => (w.finish, {})
  | some c =>
    match w.search t anchor d (t.engaged + 1) c with
    | (none, n) => (w.finish, .of n d)
    | (some (c, other), n) =>
      let current := match d with
        | .outgoing => ⟨anchor, c, other⟩
        | .incoming => ⟨other, c, anchor⟩
      ({ w with cursor := .at c, current }, .of n d)

/-- The source and the target of a connector in the order in which they fit the fixed terms. A
common edge may be read from either end. -/
def orient? (w : Triples) (type : ElementType) (c : Connection) : Option (Address × Address) :=
  let orders :=
    if type.isCommonEdge then [(c.source, c.target), (c.target, c.source)]
    else [(c.source, c.target)]
  orders.find? fun (source, target) =>
    w.pattern.source.fixed?.all (· == source) && w.pattern.target.fixed?.all (· == target)

/-- The only triple around a named connector, if it fits. -/
def single? (w : Triples) (t : Arena) (c : Address) : Option Triple := do
  let type ← t.readable? w.levels c
  let (source, target) ← w.orient? type (← (← t.find? c).connection)
  if w.pattern.source.accepts source (← t.readable? w.levels source) &&
      w.pattern.target.accepts target (← t.readable? w.levels target) then
    some ⟨source, c, target⟩
  else
    none

/-- The next triple of a walk around a named connector. -/
def advanceAt (w : Triples) (t : Arena) (c : Address) : Triples :=
  if w.cursor = .start then
    match w.single? t c with
    | some current => { w with cursor := .at c, current }
    | none => w.finish
  else
    w.finish

/-- The walk at its next triple or, when there is none, at its end. -/
def advance (w : Triples) (t : Arena) : Triples × Scans :=
  if w.isDone then (w, {})
  else
    match w.pattern.connector, w.pattern.source, w.pattern.target with
    | .fixed c, _, _ => (w.advanceAt t c, {})
    | .any _, .fixed a, _ => w.advanceInRing t a .outgoing
    | .any _, .any _, .fixed a => w.advanceInRing t a .incoming
    | .any _, .any _, .any _ => (w.finish, {})

/-- The next triples of a walk, at most `limit` of them. -/
def take (t : Arena) : Nat → Triples → List Triple × Scans
  | 0, _ => ([], {})
  | limit + 1, w =>
    let (w, n) := w.advance t
    if w.isDone then ([], n)
    else
      let (rest, m) := take t limit w
      (w.current :: rest, n + m)

end Triples

end SemanticNet
