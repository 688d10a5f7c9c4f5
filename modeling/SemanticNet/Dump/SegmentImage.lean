import SemanticNet.Dump.Record

/-!
# The image of a segment

What a dump says about one segment: how many slots are engaged, the free chain, and the live
elements. `restore` puts a segment together again and refuses an image in which an offset is out of
range or occurs twice.
-/

namespace SemanticNet

structure SegmentImage where
  number : UInt16
  lastEngaged : UInt16
  freeHead : UInt16
  free : List (UInt16 × UInt16)
  live : List (UInt16 × Element)
deriving DecidableEq, Repr

namespace SegmentImage

/-- The image of a segment. -/
def of (number : Nat) (capacity : Nat) (s : Segment) : SegmentImage :=
  { number := .ofNat number
    lastEngaged := .ofNat s.slots.size
    freeHead := s.freeHead
    free := s.chain capacity
    live := s.elements }

def toBytes (g : SegmentImage) : Bytes :=
  littleEndian 2 g.number.toNat ++ littleEndian 2 g.lastEngaged.toNat ++
    littleEndian 2 g.freeHead.toNat ++ littleEndian 4 g.free.length ++
    (g.free.flatMap fun (offset, next) =>
      littleEndian 2 offset.toNat ++ littleEndian 2 next.toNat) ++
    littleEndian 4 g.live.length ++
    g.live.flatMap fun (offset, e) => Dump.ofElement offset e

/-- The slots that an image has filled so far; one that is not filled is `none`. -/
abbrev Partial := Array (Option Slot)

/-- Fills the slot at an offset, which must not be filled yet. -/
def fill (slots : Partial) (offset : UInt16) (slot : Slot) : Except Failure Partial :=
  match slots[offset.toNat - 1]? with
  | some none => .ok (slots.setIfInBounds (offset.toNat - 1) (some slot))
  | _ => .error (.corrupt .offsetTwice)

/-- Whether an offset is that of an engaged slot. -/
def inRange (g : SegmentImage) (offset : UInt16) : Bool := offset != 0 && offset ≤ g.lastEngaged

def fillFree (g : SegmentImage) (slots : Partial) (link : UInt16 × UInt16) :
    Except Failure Partial :=
  if g.inRange link.1 && link.2 ≤ g.lastEngaged then fill slots link.1 (.free link.2)
  else .error (.corrupt .freeOffsetRange)

def fillLive (g : SegmentImage) (slots : Partial) (record : UInt16 × Element) :
    Except Failure Partial :=
  if g.inRange record.1 then fill slots record.1 (.live record.2)
  else .error (.corrupt .elementOffsetRange)

/-- The segment of an image. A slot that the image does not mention is free and ends the chain. -/
def restore (g : SegmentImage) (capacity : Nat) : Except Failure Segment := do
  if capacity < g.lastEngaged.toNat || g.lastEngaged < g.freeHead then
    throw (.corrupt .cursorBeyondCapacity)
  let slots ← g.free.foldlM g.fillFree (Array.replicate g.lastEngaged.toNat none)
  let slots ← g.live.foldlM g.fillLive slots
  return {
    slots := slots.map (·.getD (.free 0))
    freeHead := g.freeHead
    live := g.live.length }

end SegmentImage

/-- The image of the next segment. -/
def Reader.segment : Reader SegmentImage := do
  let number ← half
  let lastEngaged ← half
  let freeHead ← half
  let free ← many (do return (← half, ← half)) (← Reader.number 4)
  let live ← many element (← Reader.number 4)
  return { number, lastEngaged, freeHead, free, live }

end SemanticNet
