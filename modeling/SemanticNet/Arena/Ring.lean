import SemanticNet.Arena.Basic

/-!
# Rings

A ring is a circular list of connectors, linked both ways through the connectors themselves; its
owner knows the head and the number of members. `attach` puts a connector in front of the head and
`detach` takes one out, the head moving on if it was the one. `members` lists a ring from its head.
With allocating and freeing these are the steps that calculate, a `Machinery`.
-/

namespace SemanticNet

namespace Arena

/-- The link of the connector `c` in a ring of `owner`. -/
def linkOf (t : Arena) (c owner : Address) (d : Direction) : Except Failure RingLink := do
  match (← t.fetch c).link? owner d with
  | some l => return l
  | none => throw (.corrupt .notIncident)

/-- Changes the link of the connector `c` in a ring of `owner`. -/
def relink (c owner : Address) (d : Direction) (f : RingLink → RingLink) : Step Arena Unit := do
  let l ← Step.ask (·.linkOf c owner d)
  Step.change (·.update c (·.setLink owner d (f l)))

/-- Puts the connector `c` in front of a ring of `owner`. -/
def attach (c owner : Address) (d : Direction) : Step Arena Unit := do
  let head := ((← Step.ask (·.fetch owner)).ring d).first
  if head.isEmpty then
    relink c owner d fun _ => .alone c
  else
    let tail := (← Step.ask (·.linkOf head owner d)).prev
    relink c owner d fun _ => ⟨tail, head⟩
    relink tail owner d fun l => { l with next := c }
    relink head owner d fun l => { l with prev := c }
  alter owner fun e => e.setRing ⟨c, (e.ring d).count + 1⟩ d

/-- Takes the connector `c` out of a ring of `owner`. -/
def detach (c owner : Address) (d : Direction) : Step Arena Unit := do
  let l ← Step.ask (·.linkOf c owner d)
  let heir := if l.next = c then .empty else l.next
  if l.next ≠ c then
    relink l.prev owner d fun k => { k with next := l.next }
    relink l.next owner d fun k => { k with prev := l.prev }
  relink c owner d fun _ => {}
  alter owner fun e =>
    let r := e.ring d
    e.setRing ⟨if r.first = c then heir else r.first, if r.count = 0 then 0 else r.count - 1⟩ d

/-- The connector after `c` in a ring of `owner`: none when `c` is the last one, or no longer sits
in the ring. -/
def next? (t : Arena) (c owner : Address) (d : Direction) : Option Address := do
  let l ← (← t.find? c).link? owner d
  let e ← t.find? owner
  if l.next.isEmpty || l.next = (e.ring d).first then none else some l.next

/-- The members of a ring from `c` on, up to the one whose successor is `head`. At most `fuel` of
them are looked at. -/
def membersFrom (t : Arena) (owner : Address) (d : Direction) (head : Address) :
    Nat → Address → Except Failure (List Address)
  | 0, _ => .error (.corrupt .ringTooLong)
  | fuel + 1, c => do
    let l ← t.linkOf c owner d
    if l.next = head then return [c]
    return c :: (← t.membersFrom owner d head fuel l.next)

/-- The members of a ring, head first. A ring that does not close after as many members as its owner
counts is damaged. -/
def members (t : Arena) (owner : Address) (d : Direction) : Except Failure (List Address) := do
  let r := (← t.fetch owner).ring d
  if r.first.isEmpty then return []
  t.membersFrom owner d r.first r.count.toNat r.first

/-- The connectors attached to an element, those that leave it before those that enter it. -/
def incident (t : Arena) (a : Address) : Except Failure (List Address) := do
  return (← t.members a .outgoing) ++ (← t.members a .incoming)

end Arena

/-! ## The steps that calculate -/

/-- The steps of an arena that count something or number it. The operations of a store are built
over any such steps, so that they can also be taken with a check in front of each. -/
structure Machinery where
  attach : Address → Address → Direction → Step Arena Unit
  detach : Address → Address → Direction → Step Arena Unit
  allocate : Element → Step Arena Address
  free : Address → Step Arena Unit

/-- The steps as the arena takes them. -/
abbrev Machinery.plain : Machinery where
  attach := Arena.attach
  detach := Arena.detach
  allocate := Arena.allocate
  free := Arena.free

end SemanticNet
