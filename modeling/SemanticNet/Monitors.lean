import Std.Data.ExtTreeMap
import Std.Data.ExtTreeSet
import SemanticNet.Address

/-!
# Monitors

Whoever works on the surroundings of an address holds its monitor. The table makes a monitor on
first use, and counts the holds on it. Releasing a guard drops the monitors that nobody else holds.
Letting go of a handle does not: the monitor stays until a guard on its address is released or the
table is swept. The table has several parts, and a hash says which of them is the part of an
address. It never changes, so `find?` is a view of the table as one map (`find?_change`).
-/

namespace SemanticNet

/-- A monitor in use: its identity, and how many guards and handles refer to it. -/
structure Monitor where
  id : Nat
  holds : Nat
deriving DecidableEq, Inhabited, Repr

/-- The monitors in use, in parts, and how many have been made so far. -/
structure Monitors where
  hash : Address → UInt64
  parts : Array (Std.ExtTreeMap Address Monitor)
  made : Nat := 0
  parts_pos : 0 < parts.size

/-- A hold on the monitor of an address. It is what a handle consists of. -/
structure Hold where
  address : Address
  monitor : Nat
deriving DecidableEq, Inhabited, Repr

/-- Holds in ascending order of their addresses, and whether they shut others out. -/
structure Guard where
  holds : List Hold
  exclusive : Bool
deriving DecidableEq, Inhabited, Repr

/-- What a guard covers. -/
def Guard.addresses (g : Guard) : List Address := g.holds.map (·.address)

namespace Monitors

/-- A table without monitors. It has one part at the least. -/
def ofHash (hash : Address → UInt64) (n : Nat) : Monitors where
  hash := hash
  parts := Array.replicate (max n 1) ∅
  parts_pos := by rw [Array.size_replicate]; omega

/-- A table that is parted by the packed numbers of addresses. -/
def ofParts (n : Nat) : Monitors := ofHash (fun a => .ofNat a.packed) n

instance : Inhabited Monitors := ⟨ofParts 1⟩

/-- The index of the part of an address. -/
def partOf (m : Monitors) (a : Address) : Nat := (m.hash a).toNat % m.parts.size

/-- The monitor of an address, if it is in the table. -/
def find? (m : Monitors) (a : Address) : Option Monitor :=
  m.parts[m.partOf a]?.bind fun part => part[a]?

/-- The number of monitors in the table. -/
def size (m : Monitors) : Nat := m.parts.foldl (fun n part => n + part.size) 0

/-- Changes what the table has for an address. -/
def change (m : Monitors) (a : Address) (f : Option Monitor → Option Monitor) : Monitors where
  hash := m.hash
  parts := m.parts.modify (m.partOf a) (·.alter a f)
  made := m.made
  parts_pos := by rw [Array.size_modify]; exact m.parts_pos

/-- One more hold on the monitor of an address, which is made if there is none. -/
def hold (m : Monitors) (a : Address) : Hold × Monitors :=
  match m.find? a with
  | some k => (⟨a, k.id⟩, m.change a fun _ => some { k with holds := k.holds + 1 })
  | none => (⟨a, m.made⟩, { m.change a fun _ => some ⟨m.made, 1⟩ with made := m.made + 1 })

/-- Gives up a hold. The monitor stays. -/
def unhold (m : Monitors) (h : Hold) : Monitors :=
  m.change h.address fun k =>
    k.map fun k => if k.id = h.monitor then { k with holds := k.holds - 1 } else k

/-- Drops the monitor of an address if nobody holds it. -/
def dropIfFree (m : Monitors) (a : Address) : Monitors :=
  m.change a fun k => k.filter (·.holds ≠ 0)

/-- A hold on each of several addresses, in their order. -/
def holdAll (m : Monitors) : List Address → List Hold × Monitors
  | [] => ([], m)
  | a :: rest =>
    let (h, m) := m.hold a
    let (hs, m) := m.holdAll rest
    (h :: hs, m)

/-- A guard on several addresses. The empty address has no monitor, and an address asked for twice
is held once. A guard on nothing shuts nobody out. -/
def acquire (m : Monitors) (as : List Address) (exclusive : Bool) : Guard × Monitors :=
  let covered := (Std.ExtTreeSet.ofList (as.filter (!·.isEmpty)) compare).toList
  let (holds, m) := m.holdAll covered
  (⟨holds, exclusive && !covered.isEmpty⟩, m)

/-- Gives up a guard, in the reverse of the order of acquisition. -/
def release (m : Monitors) (g : Guard) : Monitors :=
  g.holds.reverse.foldl (fun m h => (m.unhold h).dropIfFree h.address) m

/-- The table without the monitors that nobody holds. -/
def swept (m : Monitors) : Monitors where
  hash := m.hash
  parts := m.parts.map (·.filter fun _ k => k.holds ≠ 0)
  made := m.made
  parts_pos := by rw [Array.size_map]; exact m.parts_pos

/-- Drops every monitor that nobody holds, and says how many there were. -/
def sweep (m : Monitors) : Nat × Monitors := (m.size - m.swept.size, m.swept)

/-! ## The view -/

theorem find?_change (m : Monitors) (a b : Address) (f : Option Monitor → Option Monitor) :
    (m.change a f).find? b = if a = b then f (m.find? a) else m.find? b := by
  have lt (c : Address) : m.partOf c < m.parts.size := Nat.mod_lt _ m.parts_pos
  have same : (m.change a f).partOf b = m.partOf b := by
    simp only [partOf, change, Array.size_modify]
  rw [find?, same]
  simp only [change, find?, Array.getElem?_modify, Array.getElem?_eq_getElem (lt _),
    Option.map_some, Option.bind_some]
  by_cases h : m.partOf a = m.partOf b
  · rw [if_pos h, Option.bind_some, Std.ExtTreeMap.getElem?_alter]
    by_cases hab : a = b
    · subst hab
      simp
    · have hc : compare a b ≠ .eq := fun he => hab (Std.LawfulEqOrd.eq_of_compare he)
      simp [hab, hc]
  · rw [if_neg h, Option.bind_some, if_neg]
    intro hab
    exact h (hab ▸ rfl)

end Monitors

end SemanticNet
