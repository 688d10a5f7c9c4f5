import SemanticNet.Proofs.Census

/-!
# Arenas with all elements changed

An arena is known by its shape and its slots (`Addressable.ext_slot?`). `Arena.map` changes every
element with regard to where it is and leaves the shape and the free slots as they are; the change
of one element is such a map (`Tidy.update_eq_map`).
-/

namespace SemanticNet

theorem Slot.update_update (f g : Element → Element) (x : Slot) :
    (x.update f).update g = x.update fun e => g (f e) := by
  cases x <;> rfl

theorem Slot.update_congr {f g : Element → Element} {x : Slot}
    (h : ∀ e, x = .live e → f e = g e) : x.update f = x.update g := by
  cases x with
  | free n => rfl
  | live e => rw [update, update, h e rfl]

namespace Segment

variable {s : Segment} {capacity : Nat}

theorem next?_mapIdx (s : Segment) (g : Nat → Element → Element) (o : UInt16) :
    ({ s with slots := s.slots.mapIdx fun j x => x.update (g j) } : Segment).next? o
      = s.next? o := by
  simp only [next?, slot?, Array.getElem?_mapIdx]
  split
  · rfl
  · cases s.slots[o.toNat - 1]? <;> simp

/-- Changed elements do not matter to which slot is handed out next. -/
theorem vacancy?_mapIdx (s : Segment) (g : Nat → Element → Element) (capacity : Nat) :
    ({ s with slots := s.slots.mapIdx fun j x => x.update (g j) } : Segment).vacancy? capacity
      = s.vacancy? capacity := by
  simp only [vacancy?_eq, next?_mapIdx, Array.size_mapIdx]

theorem Sound.mapIdx (h : s.Sound capacity) (g : Nat → Element → Element) :
    ({ s with slots := s.slots.mapIdx fun j x => x.update (g j) } : Segment).Sound capacity := by
  have hnext := next?_mapIdx s g
  obtain ⟨os, hch, hd, hall⟩ := h.chain
  refine ⟨by simpa using h.size_le, ?_, os, hch.congr fun o _ => hnext o, hd, fun o ho => ?_⟩
  · have hmap : (s.slots.mapIdx fun j x => x.update (g j)).map Slot.isLive
        = s.slots.map Slot.isLive := by
      ext j : 1 <;> simp
    have hcount : ∀ xs : Array Slot, xs.countP Slot.isLive = (xs.map Slot.isLive).countP id := by
      intro xs
      rw [Array.countP_map]
      rfl
    rw [h.live_eq, hcount, hcount, hmap]
  · exact hall o (hnext o ▸ ho)

end Segment

namespace Arena

variable {t t' : Arena} {a b : Address} {f : Element → Element} {g h : Address → Element → Element}

/-! ## The shape -/

/-- All of an arena but the slots: its limits, and the size, the top of the free chain and the count
of each segment. -/
def shape (t : Arena) : Nat × Nat × Nat × Array (Nat × UInt16 × Nat) :=
  (t.maxSegments, t.capacity, t.hint,
    t.segments.map fun s => (s.slots.size, s.freeHead, s.live))

/-- Each slot of each segment is at an address of its own. -/
theorem slot?_addressAt {i j : Nat} {s : Segment} (hs : t.segments[i]? = some s)
    (hi : i < 65535) (hj : j < 65535) : t.slot? (addressAt i (.ofNat (j + 1))) = s.slots[j]? := by
  have ho : (UInt16.ofNat (j + 1)).toNat = j + 1 := by
    rw [UInt16.toNat_ofNat', Nat.mod_eq_of_lt (by omega)]
  rw [slot?_of_segment hs (toNat_addressAt hi), Segment.slot?]
  show (if UInt16.ofNat (j + 1) = 0 then none else s.slots[(UInt16.ofNat (j + 1)).toNat - 1]?) = _
  rw [if_neg, ho, Nat.add_sub_cancel]
  intro h0
  rw [h0] at ho
  simp at ho

/-- An arena is known by its shape and its slots. -/
theorem Addressable.ext_slot? (ht : t.Addressable) (hshape : t'.shape = t.shape)
    (hslot : ∀ a, t'.slot? a = t.slot? a) : t' = t := by
  obtain ⟨m, c, segments, n⟩ := t
  obtain ⟨m', c', segments', n'⟩ := t'
  obtain ⟨rfl, rfl, rfl, hsegments⟩ : m' = m ∧ c' = c ∧ n' = n ∧ _ = _ := by
    simpa [shape] using hshape
  have hsize : segments'.size = segments.size := by simpa using congrArg Array.size hsegments
  rw [Arena.mk.injEq]
  refine ⟨rfl, rfl, Array.ext hsize fun i hi' hi => ?_, rfl⟩
  have hparts : segments'[i].slots.size = segments[i].slots.size ∧
      segments'[i].freeHead = segments[i].freeHead ∧ segments'[i].live = segments[i].live := by
    have := congrArg (·[i]?) hsegments
    simpa [Array.getElem?_eq_getElem hi, Array.getElem?_eq_getElem hi'] using this
  have hslots : segments'[i].slots = segments[i].slots := by
    refine Array.ext hparts.1 fun j hj' hj => ?_
    have hlimit := ht.slots_le i segments[i] (Array.getElem?_eq_getElem hi)
    have hsizes := ht.size_le
    simp only at hsizes hlimit
    have hat := hslot (addressAt i (.ofNat (j + 1)))
    rw [slot?_addressAt (Array.getElem?_eq_getElem hi') (by omega) (by omega),
      slot?_addressAt (Array.getElem?_eq_getElem hi) (by omega) (by omega),
      Array.getElem?_eq_getElem hj, Array.getElem?_eq_getElem hj'] at hat
    exact Option.some.inj hat
  cases hs : segments[i]
  cases hs' : segments'[i]
  simp_all

theorem Tidy.ext_slot? (ht : t.Tidy) (hshape : t'.shape = t.shape)
    (hslot : ∀ a, t'.slot? a = t.slot? a) : t' = t := ht.addressable.ext_slot? hshape hslot

theorem shape_update : (t.update a f).shape = t.shape := by
  rw [update]
  split
  · rfl
  · simp only [shape, Prod.mk.injEq, true_and]
    ext i : 1
    · simp
    · simp only [Array.getElem_map, Array.getElem_modify]
      split <;> simp

/-! ## Maps -/

/-- Changes every element with regard to its address. -/
def map (g : Address → Element → Element) (t : Arena) : Arena :=
  { t with
    segments := t.segments.mapIdx fun i s =>
      { s with slots := s.slots.mapIdx fun j x => x.update (g (addressAt i (.ofNat (j + 1)))) } }

theorem segment?_map (t : Arena) (g : Address → Element → Element) (i : Nat) :
    (t.map g).segments[i]? = t.segments[i]?.map fun s => { s with
      slots := s.slots.mapIdx fun j x => x.update (g (addressAt i (.ofNat (j + 1)))) } := by
  simp only [map, Array.getElem?_mapIdx]

theorem shape_map : (t.map g).shape = t.shape := by
  simp only [shape, map, Prod.mk.injEq, true_and]
  ext i : 1 <;> simp

theorem slot?_map : (t.map g).slot? a = (t.slot? a).map (Slot.update (g a)) := by
  obtain ⟨n, o⟩ := a
  have hback : ∀ m : UInt16, m ≠ 0 → UInt16.ofNat (m.toNat - 1 + 1) = m := by
    intro m hm
    have hpos : m.toNat ≠ 0 := fun h => hm (UInt16.toNat_inj.1 h)
    rw [Nat.sub_add_cancel (by omega), UInt16.ofNat_toNat]
  simp only [slot?, map, Segment.slot?, Array.getElem?_mapIdx]
  by_cases hn : n = 0
  · simp [hn]
  by_cases ho : o = 0
  · simp [ho]
  simp only [if_neg hn, if_neg ho, addressAt]
  cases t.segments[n.toNat - 1]? with
  | none => rfl
  | some s => simp only [Option.map_some, Option.bind_some, Array.getElem?_mapIdx, hback n hn,
      hback o ho]

@[simp] theorem find?_map : (t.map g).find? a = (t.find? a).map (g a) := by
  rw [find?, slot?_map, find?]
  rcases t.slot? a with - | (n | e) <;> rfl

theorem Tidy.map (ht : t.Tidy) (g : Address → Element → Element) : (t.map g).Tidy where
  size_le := by simpa [Arena.map] using ht.size_le
  maxSegments_le := ht.maxSegments_le
  capacity_pos := ht.capacity_pos
  capacity_le := ht.capacity_le
  hint_lt := by simpa [Arena.map] using ht.hint_lt
  sound i s hs := by
    rw [segment?_map] at hs
    obtain ⟨s', hs', rfl⟩ := Option.map_eq_some_iff.1 hs
    exact (ht.sound i s' hs').mapIdx _

theorem Tidy.map_map (ht : t.Tidy) : (t.map g).map h = t.map fun a e => h a (g a e) := by
  refine (ht.map _).ext_slot? (by simp only [shape_map]) fun a => ?_
  simp only [slot?_map, Option.map_map]
  congr 1
  exact funext fun x => Slot.update_update _ _ x

/-- A tidy arena is mapped as its live elements are. -/
theorem Tidy.map_congr (ht : t.Tidy) (hg : ∀ a e, t.find? a = some e → g a e = h a e) :
    t.map g = t.map h := by
  refine (ht.map h).ext_slot? (by simp only [shape_map]) fun a => ?_
  rw [slot?_map, slot?_map]
  cases hx : t.slot? a with
  | none => rfl
  | some x =>
    refine congrArg some (Slot.update_congr fun e he => hg a e ?_)
    rw [find?_eq_some_iff, hx, he]

theorem Tidy.map_eq_self (ht : t.Tidy) (hg : ∀ a e, t.find? a = some e → g a e = e) :
    t.map g = t := by
  refine ht.ext_slot? shape_map fun a => ?_
  rw [slot?_map]
  cases hx : t.slot? a with
  | none => rfl
  | some x =>
    cases x with
    | free n => rfl
    | live e =>
      rw [Option.map_some, Slot.update, hg a e (find?_eq_some_iff.2 hx)]

/-- The change of one element is a map. -/
theorem Tidy.update_eq_map (ht : t.Tidy) :
    t.update a f = t.map fun b e => if a = b then f e else e := by
  refine (ht.map _).ext_slot? (by rw [shape_map, shape_update]) fun b => ?_
  rw [slot?_update, slot?_map]
  split
  · rfl
  · rcases t.slot? b with - | (n | e) <;> rfl

/-- One more change after a map. -/
theorem Tidy.map_update (ht : t.Tidy) :
    (t.map g).update a f = t.map fun b e => if a = b then f (g b e) else g b e := by
  rw [(ht.map g).update_eq_map, ht.map_map]

end Arena

end SemanticNet
