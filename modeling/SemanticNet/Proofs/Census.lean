import Mathlib.Data.List.Perm.Basic
import SemanticNet.Proofs.Allocation
import SemanticNet.Proofs.Places
import SemanticNet.Store.Usage

/-!
# The census

The elements of an arena are listed in address order, each once (`Addressable.mem_elements`). A
census counts the kinds in that list; as counting does not depend on the order (`tally_perm`), it
follows the elements that come and go.
-/

namespace SemanticNet

open scoped List

namespace Segment

variable {s : Segment} {o : UInt16} {e : Element}

theorem mem_elements (h : s.slots.size ≤ 65535) :
    (o, e) ∈ s.elements ↔ s.slot? o = some (.live e) := by
  rw [slot?_eq_some_iff, elements, List.mem_filterMap]
  constructor
  · intro hin
    obtain ⟨⟨slot, n⟩, hmem, hslot⟩ := hin
    obtain ⟨hn, hget⟩ := List.mk_mem_zipIdx_iff_le_and_getElem?_sub.1 hmem
    rw [Array.getElem?_toList] at hget
    have hlt := (Array.getElem?_eq_some_iff.1 hget).1
    obtain ⟨e', he', heq⟩ := Option.map_eq_some_iff.1 hslot
    obtain ⟨rfl, rfl⟩ : UInt16.ofNat n = o ∧ e' = e := by simpa using heq
    have hnat : (UInt16.ofNat n).toNat = n := by
      rw [UInt16.toNat_ofNat']
      omega
    refine ⟨fun h0 => ?_, ?_⟩
    · rw [h0] at hnat
      simp at hnat
      omega
    · rw [hnat, hget]
      cases slot <;> simp_all [Slot.element?]
  · intro hslot
    obtain ⟨h0, hget⟩ := hslot
    have hpos : o.toNat ≠ 0 := fun h => h0 (UInt16.toNat_inj.1 h)
    refine ⟨(.live e, o.toNat), ?_, by simp [Slot.element?]⟩
    rw [List.mk_mem_zipIdx_iff_le_and_getElem?_sub, Array.getElem?_toList]
    exact ⟨by omega, hget⟩

theorem pairwise_zipIdx {α : Type} (l : List α) (n : Nat) :
    (l.zipIdx n).Pairwise fun p q => p.2 < q.2 := by
  have h : ((l.zipIdx n).map Prod.snd).Pairwise (· < ·) := by
    rw [List.zipIdx_map_snd]
    exact List.pairwise_lt_range'
  exact List.pairwise_map.1 h

theorem pairwise_elements (h : s.slots.size ≤ 65535) :
    s.elements.Pairwise fun p q => p.1.toNat < q.1.toNat := by
  have hlt : ∀ {p : Slot × Nat}, p ∈ s.slots.toList.zipIdx 1 → p.2 ≤ 65535 := by
    intro p hp
    obtain ⟨slot, n⟩ := p
    have := List.snd_lt_of_mem_zipIdx hp
    simp only [Array.length_toList] at this
    simp only
    omega
  refine List.pairwise_filterMap.2 ((pairwise_zipIdx _ 1).imp_of_mem ?_)
  intro p q hp hq hpq b hb b' hb'
  obtain ⟨e, -, rfl⟩ := Option.map_eq_some_iff.1 hb
  obtain ⟨e', -, rfl⟩ := Option.map_eq_some_iff.1 hb'
  have := hlt hp
  have := hlt hq
  simp only [UInt16.toNat_ofNat']
  omega

end Segment

namespace Arena

variable {t t' : Arena} {a : Address} {e : Element}

/-- There are no more segments, and no more slots in any, than addresses can tell apart. -/
structure Addressable (t : Arena) : Prop where
  size_le : t.segments.size ≤ 65535
  slots_le : ∀ (i : Nat) (s : Segment), t.segments[i]? = some s → s.slots.size ≤ 65535

theorem Tidy.addressable (h : t.Tidy) : t.Addressable where
  size_le := Nat.le_trans h.size_le h.maxSegments_le
  slots_le i s hs := Nat.le_trans (h.sound i s hs).size_le h.capacity_le

/-- The elements of an arena are those that its view shows. -/
theorem Addressable.mem_elements (h : t.Addressable) :
    (a, e) ∈ t.elements ↔ t.find? a = some e := by
  rw [find?_eq_some_iff, elements, List.mem_flatMap]
  constructor
  · intro hex
    obtain ⟨⟨s, n⟩, hmem, hin⟩ := hex
    obtain ⟨hn, hget⟩ := List.mk_mem_zipIdx_iff_le_and_getElem?_sub.1 hmem
    rw [Array.getElem?_toList] at hget
    have hlt := (Array.getElem?_eq_some_iff.1 hget).1
    obtain ⟨⟨o, e'⟩, hoe, heq⟩ := List.mem_map.1 hin
    obtain ⟨rfl, rfl⟩ : Address.mk (.ofNat n) o = a ∧ e' = e := by simpa using heq
    rw [Segment.mem_elements (h.slots_le _ _ hget)] at hoe
    have hle := h.size_le
    rw [slot?_of_segment hget]
    · exact hoe
    · show (UInt16.ofNat n).toNat = n - 1 + 1
      rw [UInt16.toNat_ofNat']
      omega
  · intro hslot
    have h0 : a.segment ≠ 0 := by
      intro h0
      simp [slot?, h0] at hslot
    have hpos : a.segment.toNat ≠ 0 := fun h => h0 (UInt16.toNat_inj.1 h)
    rw [slot?, if_neg h0, Option.bind_eq_some_iff] at hslot
    obtain ⟨s, hs, ho⟩ := hslot
    refine ⟨(s, a.segment.toNat), ?_, ?_⟩
    · rw [List.mk_mem_zipIdx_iff_le_and_getElem?_sub, Array.getElem?_toList]
      exact ⟨by omega, hs⟩
    · exact List.mem_map.2 ⟨(a.offset, e), (Segment.mem_elements (h.slots_le _ _ hs)).2 ho, by simp⟩

/-- The elements are listed in address order. -/
theorem Addressable.pairwise_elements (h : t.Addressable) :
    t.elements.Pairwise fun p q => p.1.packed < q.1.packed := by
  have hget : ∀ {p : Segment × Nat}, p ∈ t.segments.toList.zipIdx 1 →
      p.2 ≤ 65535 ∧ p.1.slots.size ≤ 65535 := by
    intro p hp
    obtain ⟨s, n⟩ := p
    obtain ⟨hn, hs⟩ := List.mk_mem_zipIdx_iff_le_and_getElem?_sub.1 hp
    rw [Array.getElem?_toList] at hs
    have := (Array.getElem?_eq_some_iff.1 hs).1
    have := h.size_le
    exact ⟨by simp only; omega, h.slots_le _ _ hs⟩
  refine List.pairwise_flatMap.2 ⟨fun p hp => ?_, (Segment.pairwise_zipIdx _ 1).imp_of_mem ?_⟩
  · refine List.pairwise_map.2 ((Segment.pairwise_elements (hget hp).2).imp fun hlt => ?_)
    simp only [Address.packed]
    omega
  · -- a packed address begins with the number of the segment
    intro p q hp hq hpq x hx y hy
    obtain ⟨x', -, rfl⟩ := List.mem_map.1 hx
    obtain ⟨y', -, rfl⟩ := List.mem_map.1 hy
    have := (hget hp).1
    have := (hget hq).1
    have := x'.1.toNat_lt
    simp only [Address.packed, UInt16.toNat_ofNat']
    omega

/-- No more elements than engaged slots. -/
theorem length_elements_le : t.elements.length ≤ t.engaged := by
  -- over the segments from the `k`th one on, with `n` slots counted before
  have hsum : ∀ (l : List Segment) (k n : Nat),
      n + ((l.zipIdx k).flatMap fun p =>
        p.1.elements.map fun q => ((⟨.ofNat p.2, q.1⟩ : Address), q.2)).length
      ≤ l.foldl (fun n s => n + s.slots.size) n := by
    intro l
    induction l with
    | nil => simp
    | cons s l ih =>
      intro k n
      have hs : s.elements.length ≤ s.slots.size := by
        have := List.length_filterMap_le (fun (p : Slot × Nat) =>
          p.1.element?.map fun e => (UInt16.ofNat p.2, e)) (s.slots.toList.zipIdx 1)
        simpa [Segment.elements] using this
      have := ih (k + 1) (n + s.slots.size)
      simp only [List.zipIdx_cons, List.flatMap_cons, List.length_append, List.length_map,
        List.foldl_cons]
      omega
  have := hsum t.segments.toList 1 0
  rw [Nat.zero_add, Array.foldl_toList] at this
  exact this

/-- Every live element with the kind it is counted as. -/
def kinds (t : Arena) : List (Address × Kind) := t.elements.map fun p => (p.1, p.2.type.sort)

/-- The kind of the element at an address. -/
def kind? (t : Arena) (a : Address) : Option Kind := (t.find? a).map (·.type.sort)

theorem Addressable.mem_kinds (h : t.Addressable) {k : Kind} :
    (a, k) ∈ t.kinds ↔ t.kind? a = some k := by
  rw [kinds, List.mem_map, kind?, Option.map_eq_some_iff]
  constructor
  · intro hex
    obtain ⟨⟨a', e⟩, hmem, heq⟩ := hex
    obtain ⟨rfl, rfl⟩ : a' = a ∧ e.type.sort = k := by simpa using heq
    exact ⟨e, h.mem_elements.1 hmem, rfl⟩
  · intro hex
    obtain ⟨e, he, rfl⟩ := hex
    exact ⟨(a, e), h.mem_elements.2 he, rfl⟩

theorem Addressable.nodup_kinds (h : t.Addressable) : t.kinds.Nodup := by
  refine List.pairwise_map.2 (h.pairwise_elements.imp fun hlt heq => ?_)
  have := congrArg (·.1.packed) heq
  simp only at this
  omega

theorem Addressable.kinds_perm (h : t.Addressable) (h' : t'.Addressable)
    (hk : ∀ a, t'.kind? a = t.kind? a) : t'.kinds ~ t.kinds := by
  rw [List.perm_ext_iff_of_nodup h'.nodup_kinds h.nodup_kinds]
  intro p
  obtain ⟨a, k⟩ := p
  rw [h.mem_kinds, h'.mem_kinds, hk]

theorem Addressable.kinds_perm_cons (h : t.Addressable) (h' : t'.Addressable) {k : Kind}
    (hnew : t.kind? a = none)
    (hk : ∀ b, t'.kind? b = if b = a then some k else t.kind? b) :
    t'.kinds ~ (a, k) :: t.kinds := by
  have hfresh : (a, k) ∉ t.kinds := by
    rw [h.mem_kinds, hnew]
    simp
  rw [List.perm_ext_iff_of_nodup h'.nodup_kinds (List.nodup_cons.2 ⟨hfresh, h.nodup_kinds⟩)]
  intro p
  obtain ⟨b, l⟩ := p
  rw [h'.mem_kinds, hk, List.mem_cons, h.mem_kinds]
  by_cases hb : b = a
  · simp [hb, hnew, eq_comm]
  · simp [hb]

end Arena

namespace Census

variable {c : Census} {k l : Kind} {ks ls : List Kind}

/-- The census of a list of kinds. -/
def tally (ks : List Kind) : Census := ks.foldl add {}

theorem add_right_comm : (c.add k).add l = (c.add l).add k := by
  cases k <;> cases l <;> rfl

theorem tally_perm (h : ks ~ ls) : tally ks = tally ls :=
  h.foldl_eq' (fun _ _ _ _ _ => add_right_comm) {}

theorem foldl_add : ks.foldl add (c.add k) = (ks.foldl add c).add k := by
  induction ks generalizing c with
  | nil => rfl
  | cons l ks ih =>
    rw [List.foldl_cons, add_right_comm, ih]
    rfl

theorem tally_cons : tally (k :: ks) = (tally ks).add k := foldl_add

/-- What was counted last can be taken back. -/
theorem remove_add : (c.add k).remove k = c := by
  cases k <;> simp [add, remove, set, of]

end Census

/-- A census from scratch is the tally of the kinds. -/
theorem Store.census_recount (s : Store) :
    s.recount.census = Census.tally (s.arena.kinds.map Prod.snd) := by
  rw [Census.tally, Arena.kinds, List.map_map, List.foldl_map]
  rfl

end SemanticNet
