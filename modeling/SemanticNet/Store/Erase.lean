import SemanticNet.Store.Basic

/-!
# Erasure

Erasing an element erases every connector attached to it, and every connector attached to those. The
elements concerned are found and marked first (`sweep`), then freed (`releaseAll`). An element is
freed once no connector is attached to it any more; one that is met too early waits for the next
pass. A failure on the way takes the marks off again.
-/

namespace SemanticNet.Arena

/-- Sets or takes off the mark of an element that is being erased. -/
def setErasing (t : Arena) (a : Address) (mark : Bool) : Arena :=
  t.update a ({ · with erasing := mark })

/-- Marks the elements among `as` that are live and not marked yet. The result lists those, the last
one first. -/
def markNew (t : Arena) : List Address → List Address → List Address × Arena
  | [], fresh => (fresh, t)
  | a :: rest, fresh =>
    match t.find? a with
    | some e => if e.erasing then t.markNew rest fresh
      else (t.setErasing a true).markNew rest (a :: fresh)
    | none => t.markNew rest fresh

/-- What is left to do in a sweep: look at an element, or put one into the order that has been
looked at. -/
inductive Errand where
  | visit (a : Address)
  | file (a : Address)
deriving DecidableEq, Repr

/-- The outcome of a sweep: the order in which to free the elements, or why it was broken off, and
every element that was marked. -/
structure Sweep where
  order : Except Failure (List Address)
  marked : List Address
  arena : Arena

/-- Marks everything that hangs on the elements to visit. An element is filed after the connectors
that were marked on its account. Each visit files one element, so `fuel` need not exceed twice the
number of elements. -/
def sweepFrom (t : Arena) (marked filed : List Address) : Nat → List Errand → Sweep
  | _, [] => ⟨.ok filed.reverse, marked, t⟩
  | 0, _ => ⟨.error (.corrupt .noProgress), marked, t⟩
  | fuel + 1, .file a :: rest => t.sweepFrom marked (a :: filed) fuel rest
  | fuel + 1, .visit a :: rest =>
    match t.incident a with
    | .error f => ⟨.error f, marked, t⟩
    | .ok connectors =>
      let (fresh, t) := t.markNew connectors []
      t.sweepFrom (fresh ++ marked) filed fuel (fresh.map .visit ++ .file a :: rest)

/-- Marks `a`, which is not marked yet, and everything that hangs on it. -/
def sweep (t : Arena) (a : Address) : Sweep :=
  (t.setErasing a true).sweepFrom [a] [] (2 * t.engaged + 2) [.visit a]

/-- Takes the marks off. -/
def unmark (t : Arena) (as : List Address) : Arena := as.foldl (·.setErasing · false) t

end SemanticNet.Arena

namespace SemanticNet

/-- Drops the content of an element of type `type`, which only a link has. -/
def Store.dropContent (a : Address) (type : ElementType) (s : Store) : Store :=
  if type.isLink then s.changeContents (·.erase a) else s

namespace Machinery

open Store

/-- Detaches a connector from each of its places in turn. -/
def detachAll (m : Machinery) (c : Address) : List (Address × Direction) → Step Arena Unit
  | [] => pure ()
  | (owner, d) :: rest => do
    m.detach c owner d
    m.detachAll c rest

/-- Frees an element to which no connector is attached, and says whether it did. -/
def release (m : Machinery) (a : Address) : Step Store Bool := do
  let e ← Step.ask (·.arena.fetch a)
  if e.hasIncident then
    return false
  else
    onArena (m.detachAll a e.places)
    Step.change (dropContent a e.type)
    onArena (m.free a)
    Step.change (·.noteErased e.type.sort)
    return true

/-- Frees what can be freed among `as` and returns the rest, in the same order. -/
def releasePass (m : Machinery) : List Address → Step Store (List Address)
  | [] => return []
  | a :: rest => do
    let freed ← m.release a
    let waiting ← m.releasePass rest
    return if freed then waiting else a :: waiting

/-- Frees all of `as` in at most `passes` passes. When a pass frees nothing, no later one does. -/
def releaseAll (m : Machinery) : Nat → List Address → Step Store Unit
  | _, [] => return ()
  | 0, _ => throw (.corrupt .noProgress)
  | passes + 1, as => do m.releaseAll passes (← m.releasePass as)

/-- Frees what a sweep has put into order. -/
def releaseSwept (m : Machinery) (order : Except Failure (List Address)) :
    Step Store (List Address) := do
  let order ← Step.ask fun _ => order
  m.releaseAll order.length order
  return order

/-- Erases an element and all that hangs on it. Returns what was erased, the element itself last. -/
def erase (m : Machinery) (a : Address) : Step Store (List Address) := do
  let e ← Step.ask (·.arena.fetch a)
  if e.erasing then
    return []
  else
    let (order, marked) ← onArena (modifyGet fun t =>
      let s := t.sweep a
      ((s.order, s.marked), s.arena))
    try
      m.releaseSwept order
    catch f =>
      onArena (Step.change (·.unmark marked))
      throw f

end Machinery

abbrev Arena.detachAll (c : Address) (places : List (Address × Direction)) : Step Arena Unit :=
  Machinery.plain.detachAll c places

namespace Store

abbrev release (a : Address) : Step Store Bool := Machinery.plain.release a

abbrev releasePass (as : List Address) : Step Store (List Address) := Machinery.plain.releasePass as

abbrev releaseAll (passes : Nat) (as : List Address) : Step Store Unit :=
  Machinery.plain.releaseAll passes as

abbrev erase (a : Address) : Step Store (List Address) := Machinery.plain.erase a

end Store

end SemanticNet
