import SemanticNet.Store.Basic
import SemanticNet.ElementType.Narrowing

/-!
# New elements

Nodes, links and connectors. A new connector is attached to the rings of its ends before anyone sees
it. The operations are written over a `Machinery`; those of a store are the ones over the steps of
the arena as they are.
-/

namespace SemanticNet

/-- Refuses an element that is not live or that is being erased. -/
def Store.requireStaying (s : Store) (a : Address) : Except Failure Unit := do
  if (← s.arena.fetch a).erasing then throw (.notLive a)

namespace Machinery

open Store

/-- Stores a new element and counts it. -/
def insert (m : Machinery) (e : Element) : Step Store Address := fun s =>
  let before := s.arena.segments.size
  match onArena (m.allocate e) s with
  | (.ok a, s) =>
    (.ok a, (s.count .segmentAdded (s.arena.segments.size - before)).noteCreated e.type.sort)
  | (.error (.fullMemory n), s) => (.error (.fullMemory n), s.count .refusedFull 1)
  | (.error f, s) => (.error f, s)

/-- A new node. The node bit is added to its type, which must name neither a connector nor a link.
-/
def addNode (m : Machinery) (type : ElementType) (access : Access) : Step Store Address := do
  if type.isConnector || type.isLink then throw (.invalidType .nodeExpected)
  m.insert { type := type ||| .node, access }

/-- A new link without content. The link bits are added to its type, which must name neither a
connector nor any other refinement of a node. -/
def addLink (m : Machinery) (type : ElementType) (access : Access) : Step Store Address := do
  if type.isConnector || type.hasAny (.nodeBits &&& ~~~.link) then
    throw (.invalidType .linkExpected)
  m.insert { type := type ||| .link, access }

/-- Attaches a connector to each of its places in turn. -/
def attachAll (m : Machinery) (c : Address) : List (Address × Direction) → Step Arena Unit
  | [] => pure ()
  | (owner, d) :: rest => do
    m.attach c owner d
    m.attachAll c rest

/-- Stores an element and attaches it to its places. -/
def make (m : Machinery) (e : Element) : Step Store Address := do
  let c ← m.insert e
  onArena (m.attachAll c e.places)
  return c

/-- A new connector from `source` to `target`. Its type must have exactly one connector kind and
otherwise only bits that belong to that kind. -/
def connect (m : Machinery) (type : ElementType) (source target : Address) (access : Access) :
    Step Store Address := do
  unless type.kind.isConnectorKind do throw (.invalidType .connectorExpected)
  unless type.kind.narrowsTo type do throw (.invalidType .malformedConnector)
  if source.isEmpty || target.isEmpty then throw (.invalidParams .emptyEndpoint)
  Step.ask (·.requireStaying source)
  Step.ask (·.requireStaying target)
  m.make { type, access, connection := some { source, target } }

end Machinery

namespace Store

abbrev insert (e : Element) : Step Store Address := Machinery.plain.insert e

abbrev addNode (type : ElementType) (access : Access) : Step Store Address :=
  Machinery.plain.addNode type access

abbrev addLink (type : ElementType) (access : Access) : Step Store Address :=
  Machinery.plain.addLink type access

abbrev attachAll (c : Address) (places : List (Address × Direction)) : Step Arena Unit :=
  Machinery.plain.attachAll c places

abbrev make (e : Element) : Step Store Address := Machinery.plain.make e

abbrev connect (type : ElementType) (source target : Address) (access : Access) :
    Step Store Address :=
  Machinery.plain.connect type source target access

end Store

end SemanticNet
