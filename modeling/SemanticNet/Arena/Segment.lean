import SemanticNet.Element
import SemanticNet.Failure

/-!
# Segments

A segment is a run of slots with offsets from 1. Slots are engaged in order; a slot that is freed
goes on top of a chain threaded through the free slots, and is the next one to be handed out.
Only engaged slots are kept: `slots` holds those with offsets 1 to `slots.size`.
-/

namespace SemanticNet

/-- A slot holds an element, or is free and names the offset below it on the free chain, where 0
ends the chain. -/
inductive Slot where
  | free (next : UInt16)
  | live (e : Element)
deriving DecidableEq, Inhabited, Repr

namespace Slot

def element? : Slot → Option Element
  | live e => some e
  | free _ => none

def isLive (s : Slot) : Bool := s.element?.isSome

/-- Applies `f` to the element of a live slot. -/
def update (f : Element → Element) : Slot → Slot
  | live e => live (f e)
  | free next => free next

@[simp] theorem element?_update (f : Element → Element) (s : Slot) :
    (s.update f).element? = s.element?.map f := by
  cases s <;> rfl

end Slot

/-- The engaged slots, the top of the free chain (0 for an empty chain), and how many slots are
live. -/
structure Segment where
  slots : Array Slot := #[]
  freeHead : UInt16 := 0
  live : Nat := 0
deriving DecidableEq, Inhabited, Repr

namespace Segment

def slot? (s : Segment) (offset : UInt16) : Option Slot :=
  if offset = 0 then none else s.slots[offset.toNat - 1]?

/-- The slot that is handed out next: the top of the free chain, or the first one that was never
engaged. -/
inductive Vacancy where
  | reused (offset next : UInt16)
  | fresh (offset : UInt16)
deriving DecidableEq, Repr

def Vacancy.offset : Vacancy → UInt16
  | reused offset _ => offset
  | fresh offset => offset

/-- The slot that is handed out next in a segment of the given capacity. A live slot on the free
chain is damage. -/
def vacancy? (s : Segment) (capacity : Nat) : Except Failure (Option Vacancy) :=
  if s.freeHead ≠ 0 then
    match s.slot? s.freeHead with
    | some (.free next) => .ok (some (.reused s.freeHead next))
    | _ => .error (.corrupt .liveOnFreeChain)
  else if s.slots.size < capacity then
    .ok (some (.fresh (.ofNat (s.slots.size + 1))))
  else
    .ok none

/-- Puts an element into a vacant slot. -/
def occupy (s : Segment) (e : Element) : Vacancy → Segment
  | .reused offset next =>
    { slots := s.slots.setIfInBounds (offset.toNat - 1) (.live e)
      freeHead := next
      live := s.live + 1 }
  | .fresh _ => { s with slots := s.slots.push (.live e), live := s.live + 1 }

/-- Frees the slot at `offset` and puts it on top of the free chain. -/
def free (s : Segment) (offset : UInt16) : Segment :=
  { slots := s.slots.setIfInBounds (offset.toNat - 1) (.free s.freeHead)
    freeHead := offset
    live := s.live - 1 }

def hasRoom (s : Segment) (capacity : Nat) : Bool := s.freeHead != 0 || s.slots.size < capacity

/-- The live slots with their offsets, in order. -/
def elements (s : Segment) : List (UInt16 × Element) :=
  (s.slots.toList.zipIdx 1).filterMap fun (slot, offset) =>
    slot.element?.map fun e => (.ofNat offset, e)

/-- The free chain from `offset` down, as pairs of an offset and the one below it. It ends at 0, at
a live slot, or when `fuel` offsets have been listed. -/
def chainFrom (s : Segment) : Nat → UInt16 → List (UInt16 × UInt16)
  | 0, _ => []
  | fuel + 1, offset =>
    match s.slot? offset with
    | some (.free next) => (offset, next) :: s.chainFrom fuel next
    | _ => []

/-- The free chain from its top. A chain that runs in a circle is cut where it has become longer
than the segment. -/
def chain (s : Segment) (capacity : Nat) : List (UInt16 × UInt16) :=
  s.chainFrom (capacity + 1) s.freeHead

end Segment

end SemanticNet
