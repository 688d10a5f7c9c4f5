import SemanticNet.Access
import SemanticNet.ElementType.Basic
import SemanticNet.Address

/-!
# Elements

Every element heads two rings, one of the connectors that leave it and one of those that enter it.
A ring is threaded through its connectors: a connector holds one link per ring it sits in. An arc
sits in the outgoing ring of its source and the incoming ring of its target. A common edge between
two distinct elements also sits in the outgoing ring of its target and the incoming ring of its
source. `Element.role?` says which of its four links a connector uses in a given ring.
-/

namespace SemanticNet

/-- The two rings of an element. -/
inductive Direction where
  | outgoing
  | incoming
deriving DecidableEq, Inhabited, Repr

namespace Direction

/-- Both directions, in the order in which rings are walked. -/
def both : List Direction := [outgoing, incoming]

instance : ToString Direction := ⟨fun | outgoing => "out" | incoming => "in"⟩

end Direction

/-- The neighbours of a connector in one ring. -/
structure RingLink where
  prev : Address := .empty
  next : Address := .empty
deriving DecidableEq, Inhabited, Repr

/-- A connector alone in a ring is its own neighbour. -/
def RingLink.alone (a : Address) : RingLink := ⟨a, a⟩

/-- The four places of a connector in rings: which of its ends owns the ring, and the direction of
the ring. The last two are used by common edges only. -/
inductive Role where
  | sourceOut
  | targetIn
  | targetOut
  | sourceIn
deriving DecidableEq, Inhabited, Repr

/-- What a connector has beyond other elements: its ends and its links. -/
structure Connection where
  source : Address
  target : Address
  sourceOut : RingLink := {}
  targetIn : RingLink := {}
  targetOut : RingLink := {}
  sourceIn : RingLink := {}
deriving DecidableEq, Inhabited, Repr

namespace Connection

def link (c : Connection) : Role → RingLink
  | .sourceOut => c.sourceOut
  | .targetIn => c.targetIn
  | .targetOut => c.targetOut
  | .sourceIn => c.sourceIn

def setLink (c : Connection) (l : RingLink) : Role → Connection
  | .sourceOut => { c with sourceOut := l }
  | .targetIn => { c with targetIn := l }
  | .targetOut => { c with targetOut := l }
  | .sourceIn => { c with sourceIn := l }

/-- The end across from `owner`. -/
def opposite? (c : Connection) (owner : Address) : Option Address :=
  if c.source = owner then some c.target else if c.target = owner then some c.source else none

end Connection

/-- The head of a ring and the number of its members. -/
structure RingHead where
  first : Address := .empty
  count : UInt32 := 0
deriving DecidableEq, Inhabited, Repr

/-- A live element. `erasing` is set while an erasure is under way; `flags` holds what other marks
a stored record carries. -/
structure Element where
  type : ElementType
  access : Access
  flags : UInt8 := 0
  erasing : Bool := false
  outgoing : RingHead := {}
  incoming : RingHead := {}
  connection : Option Connection := none
deriving DecidableEq, Inhabited, Repr

namespace Element

def ring (e : Element) : Direction → RingHead
  | .outgoing => e.outgoing
  | .incoming => e.incoming

def setRing (e : Element) (r : RingHead) : Direction → Element
  | .outgoing => { e with outgoing := r }
  | .incoming => { e with incoming := r }

/-- Whether some connector is attached. -/
def hasIncident (e : Element) : Bool := !e.outgoing.first.isEmpty || !e.incoming.first.isEmpty

/-- The source and the target of a connector. -/
def ends? (e : Element) : Option (Address × Address) :=
  e.connection.map fun c => (c.source, c.target)

/-- The place that the connector `e` takes in the ring of `owner`, if it belongs there. -/
def role? (e : Element) (owner : Address) (d : Direction) : Option Role :=
  match e.connection, d with
  | none, _ => none
  | some c, .outgoing =>
    if c.source = owner then some .sourceOut
    else if e.type.isCommonEdge && c.target = owner then some .targetOut
    else none
  | some c, .incoming =>
    if c.target = owner then some .targetIn
    else if e.type.isCommonEdge && c.source = owner then some .sourceIn
    else none

/-- The link of the connector `e` in the ring of `owner`, if it belongs there. -/
def link? (e : Element) (owner : Address) (d : Direction) : Option RingLink :=
  match e.connection, e.role? owner d with
  | some c, some r => some (c.link r)
  | _, _ => none

/-- Replaces the link of the connector `e` in the ring of `owner`. -/
def setLink (e : Element) (owner : Address) (d : Direction) (l : RingLink) : Element :=
  match e.connection, e.role? owner d with
  | some c, some r => { e with connection := some (c.setLink l r) }
  | _, _ => e

/-- The rings that the element has to sit in, as pairs of an owner and a direction, in the order in
which it is attached to them and taken out again: none unless it is a connector, four for a common
edge between two distinct elements, two for any other connector. -/
def places (e : Element) : List (Address × Direction) :=
  match e.connection with
  | none => []
  | some c =>
    [(c.source, .outgoing), (c.target, .incoming)] ++
      if e.type.isCommonEdge && c.source != c.target then
        [(c.target, .outgoing), (c.source, .incoming)]
      else
        []

end Element

end SemanticNet
