import Std.Data.ExtTreeMap
import Std.Data.ExtTreeSet

/-!
# Addresses

An element is found by the number of its segment and the offset of its slot there. Both count
from 1, and `0:0` denotes no element. Addresses are ordered by segment, then by offset, which is
the order of their packed numbers; `packed_inj` says that packing loses nothing.
-/

namespace SemanticNet

/-- Where an element lives: a segment number and a slot offset inside it. -/
structure Address where
  segment : UInt16
  offset : UInt16
deriving DecidableEq, Hashable, Inhabited, Repr

namespace Address

/-- The address of no element. -/
def empty : Address := ⟨0, 0⟩

def isEmpty (a : Address) : Bool := a.segment == 0 && a.offset == 0

/-- The address as one number, the segment in the upper sixteen bits. -/
def packed (a : Address) : Nat := a.segment.toNat * 65536 + a.offset.toNat

/-- The address with the given packed number. -/
def ofPacked (n : Nat) : Address := ⟨.ofNat (n / 65536), .ofNat n⟩

theorem packed_lt (a : Address) : a.packed < UInt32.size := by
  have := a.segment.toNat_lt
  have := a.offset.toNat_lt
  unfold packed UInt32.size
  omega

theorem packed_inj {a b : Address} (h : a.packed = b.packed) : a = b := by
  obtain ⟨s, o⟩ := a
  obtain ⟨s', o'⟩ := b
  simp only [packed] at h
  have := o.toNat_lt
  have := o'.toNat_lt
  obtain rfl : s = s' := UInt16.toNat_inj.1 (by omega)
  obtain rfl : o = o' := UInt16.toNat_inj.1 (by omega)
  rfl

@[simp] theorem ofPacked_packed (a : Address) : ofPacked a.packed = a := by
  obtain ⟨s, o⟩ := a
  have := s.toNat_lt
  have := o.toNat_lt
  simp only [ofPacked, packed, mk.injEq, ← UInt16.toNat_inj, UInt16.toNat_ofNat']
  omega

@[simp] theorem isEmpty_iff {a : Address} : a.isEmpty = true ↔ a = empty := by
  obtain ⟨s, o⟩ := a
  simp [isEmpty, empty]

/-- Addresses compare as their packed numbers do. -/
instance : Ord Address := ⟨fun a b => compare a.packed b.packed⟩

theorem compare_def (a b : Address) : compare a b = compare a.packed b.packed := rfl

instance : Std.TransOrd Address where
  eq_swap {a b} := by
    simp only [compare_def]
    exact Std.OrientedOrd.eq_swap
  isLE_trans {a b c} := by
    simp only [compare_def]
    exact Std.TransOrd.isLE_trans

instance : Std.LawfulEqOrd Address where
  eq_of_compare h := packed_inj (Nat.compare_eq_eq.1 h)

/-- A set of addresses is listed in ascending order. -/
theorem pairwise_toList (as : Std.ExtTreeSet Address) :
    as.toList.Pairwise (·.packed < ·.packed) := by
  refine Std.ExtTreeSet.ordered_toList.imp fun {a b} hlt => ?_
  rwa [compare_def, Nat.compare_eq_lt] at hlt

instance : ToString Address := ⟨fun a => s!"{a.segment}:{a.offset}"⟩

end Address

end SemanticNet
