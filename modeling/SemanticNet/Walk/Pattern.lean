import SemanticNet.Arena.Ring

/-!
# Patterns

A pattern for a source, a connector and a target. Each of its terms names one element or asks for
type bits. At least one term has to name an element, so that there is a place to start from;
`Shape` says which terms do.
-/

namespace SemanticNet

/-- One position of a pattern. -/
inductive Term where
  | fixed (a : Address)
  | any (mask : ElementType)
deriving DecidableEq, Inhabited, Repr

namespace Term

def fixed? : Term → Option Address
  | fixed a => some a
  | any _ => none

/-- Whether the element at `a`, of type `type`, fits. -/
def accepts (t : Term) (a : Address) (type : ElementType) : Bool :=
  match t with
  | fixed b => b == a
  | any mask => type.fits mask

end Term

/-- Which terms of a pattern name an element. -/
inductive Shape where
  | fixedAnyAny
  | anyAnyFixed
  | fixedAnyFixed
  | anyFixedAny
  | fixedFixedAny
  | anyFixedFixed
  | fixedFixedFixed
deriving DecidableEq, Inhabited, Repr

/-- The short name of a shape: `f` for a fixed term and `a` for any other. -/
def Shape.name : Shape → String
  | fixedAnyAny => "f_a_a"
  | anyAnyFixed => "a_a_f"
  | fixedAnyFixed => "f_a_f"
  | anyFixedAny => "a_f_a"
  | fixedFixedAny => "f_f_a"
  | anyFixedFixed => "a_f_f"
  | fixedFixedFixed => "f_f_f"

structure Pattern where
  source : Term
  connector : Term
  target : Term
deriving DecidableEq, Inhabited, Repr

/-- The shape of a pattern that names some element. -/
def Pattern.shape? (p : Pattern) : Option Shape :=
  match p.source, p.connector, p.target with
  | .fixed _, .any _, .any _ => some .fixedAnyAny
  | .any _, .any _, .fixed _ => some .anyAnyFixed
  | .fixed _, .any _, .fixed _ => some .fixedAnyFixed
  | .any _, .fixed _, .any _ => some .anyFixedAny
  | .fixed _, .fixed _, .any _ => some .fixedFixedAny
  | .any _, .fixed _, .fixed _ => some .anyFixedFixed
  | .fixed _, .fixed _, .fixed _ => some .fixedFixedFixed
  | .any _, .any _, .any _ => none

/-- A source, a connector and a target. -/
structure Triple where
  source : Address := .empty
  connector : Address := .empty
  target : Address := .empty
deriving DecidableEq, Inhabited, Repr

def Triple.toList (t : Triple) : List Address := [t.source, t.connector, t.target]

/-- How many members of rings were looked at. -/
structure Scans where
  outgoing : Nat := 0
  incoming : Nat := 0
deriving DecidableEq, Inhabited, Repr

namespace Scans

instance : Add Scans := ⟨fun m n => ⟨m.outgoing + n.outgoing, m.incoming + n.incoming⟩⟩

def of (n : Nat) : Direction → Scans
  | .outgoing => ⟨n, 0⟩
  | .incoming => ⟨0, n⟩

end Scans

/-- The type of an element that may be read with the given levels. -/
def Arena.readable? (t : Arena) (levels : Access) (a : Address) : Option ElementType := do
  let e ← t.find? a
  if levels.mayRead e.access then some e.type else none

end SemanticNet
