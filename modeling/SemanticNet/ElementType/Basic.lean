/-!
# Element types

The type of an element is a set of sixteen bits: its kind (node or one of three connectors), its
constancy, and marks that refine the kind. The refining marks of nodes and of connectors share
their bits, so they mean something only together with the kind.
-/

namespace SemanticNet

/-- A set of type bits. -/
structure ElementType where
  bits : UInt16
deriving DecidableEq, Inhabited, Repr

namespace ElementType

instance : OrOp ElementType := ⟨fun s t => ⟨s.bits ||| t.bits⟩⟩

instance : AndOp ElementType := ⟨fun s t => ⟨s.bits &&& t.bits⟩⟩

instance : Complement ElementType := ⟨fun t => ⟨~~~t.bits⟩⟩

/-- The empty set of bits. As a pattern it fits every element. -/
def unknown : ElementType := ⟨0⟩

/-! ## Kinds and constancy -/

/-- A node. -/
def node : ElementType := ⟨0x1⟩

/-- A link: a node that may carry content. -/
def link : ElementType := ⟨0x3⟩

/-- An undirected connector. -/
def commonEdge : ElementType := ⟨0x4⟩

/-- A directed connector other than a membership. -/
def commonArc : ElementType := ⟨0x8⟩

/-- A directed membership, refined by positivity, permanency and actuality. -/
def membershipArc : ElementType := ⟨0x10⟩

def const : ElementType := ⟨0x20⟩

def var : ElementType := ⟨0x40⟩

/-! ## Groups of bits -/

/-- The bits that tell the kind. -/
def kindBits : ElementType := ⟨0x1D⟩

/-- The kinds that connect two elements. -/
def connectorBits : ElementType := ⟨0x1C⟩

/-- The kinds that have a direction. -/
def arcBits : ElementType := ⟨0x18⟩

def constancyBits : ElementType := ⟨0x60⟩

/-- Positive, negative and fuzzy membership. -/
def positivityBits : ElementType := ⟨0x380⟩

/-- Temporary and permanent membership; the permanent mark includes the actual one. -/
def permanencyBits : ElementType := ⟨0x4C00⟩

/-- Actual and inactual membership. -/
def actualityBits : ElementType := ⟨0xC000⟩

/-- The refinements of a node, the link mark among them. -/
def nodeBits : ElementType := ⟨0x3F82⟩

/-! ## Questions about a type -/

def isUnknown (t : ElementType) : Bool := t.bits == 0

/-- Whether every bit of `s` is set. -/
def hasAll (t s : ElementType) : Bool := t &&& s == s

/-- Whether some bit of `s` is set. -/
def hasAny (t s : ElementType) : Bool := !(t &&& s).isUnknown

/-- Whether an element of type `t` fits a pattern: it must carry every bit of it. -/
def fits (t mask : ElementType) : Bool := t.hasAll mask

/-- The kind alone. -/
def kind (t : ElementType) : ElementType := t &&& kindBits

/-- Links count as nodes. -/
def isNode (t : ElementType) : Bool := t.hasAny node

def isLink (t : ElementType) : Bool := t.hasAll link

def isConnector (t : ElementType) : Bool := t.hasAny connectorBits

def isCommonEdge (t : ElementType) : Bool := t.hasAny commonEdge

def isArc (t : ElementType) : Bool := t.hasAny arcBits

def isCommonArc (t : ElementType) : Bool := t.hasAny commonArc

def isMembershipArc (t : ElementType) : Bool := t.hasAny membershipArc

def isConst (t : ElementType) : Bool := t.hasAny const

def isVar (t : ElementType) : Bool := t.hasAny var

/-- Whether exactly one of the three connector kinds is set, and no node bit. -/
def isConnectorKind (t : ElementType) : Bool :=
  t == commonEdge || t == commonArc || t == membershipArc

/-- `0x` and four hexadecimal digits. -/
instance : ToString ElementType :=
  ⟨fun t =>
    let digits := Nat.toDigits 16 t.bits.toNat
    "0x" ++ String.ofList (List.replicate (4 - digits.length) '0' ++ digits)⟩

end ElementType

/-- The three sorts of element that are counted apart. -/
inductive Kind where
  | node
  | link
  | connector
deriving DecidableEq, Inhabited, Repr

/-- A connector bit decides first, then the link mark; what is left counts as a node. -/
def ElementType.sort (t : ElementType) : Kind :=
  if t.isConnector then .connector else if t.isLink then .link else .node

end SemanticNet
