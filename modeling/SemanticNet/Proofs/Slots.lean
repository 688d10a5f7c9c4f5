import Mathlib.Data.List.Nodup
import SemanticNet.Arena.Basic

/-!
# The slots of a segment

A segment is sound when its free chain goes through every free slot once and ends at 0, and its
count of live slots is right (`Segment.Sound`). Handing out a slot, freeing one and changing an
element keep it so, and a sound segment hands out a slot that is not live, or is full.
-/

namespace SemanticNet

/-- The offset below a free slot on the free chain. -/
def Slot.next? : Slot → Option UInt16
  | free n => some n
  | live _ => none

@[simp] theorem Slot.next?_update (f : Element → Element) (s : Slot) :
    (s.update f).next? = s.next? := by
  cases s <;> rfl

@[simp] theorem Slot.isLive_update (f : Element → Element) (s : Slot) :
    (s.update f).isLive = s.isLive := by
  cases s <;> rfl

theorem Slot.eq_free_iff {s : Slot} {n : UInt16} : s = free n ↔ s.next? = some n := by
  cases s <;> simp [next?]

namespace Segment

variable {s s' : Segment} {o b n : UInt16} {os : List UInt16} {e : Element} {capacity : Nat}

/-- The offset below the free slot at an offset. -/
def next? (s : Segment) (o : UInt16) : Option UInt16 := (s.slot? o).bind Slot.next?

/-- From `o` down, the free chain goes through the offsets `os` and ends. -/
def Chained (s : Segment) : UInt16 → List UInt16 → Prop
  | o, [] => o = 0
  | o, a :: os => o = a ∧ ∃ n, s.next? a = some n ∧ s.Chained n os

/-- The counts of a segment are right, and its free chain goes through every free slot once. -/
structure Sound (s : Segment) (capacity : Nat) : Prop where
  size_le : s.slots.size ≤ capacity
  live_eq : s.live = s.slots.countP (·.isLive)
  chain : ∃ os : List UInt16, s.Chained s.freeHead os ∧ os.Nodup ∧ ∀ o, (s.next? o).isSome → o ∈ os

/-- The free chain of a segment goes through free slots only, through none of them twice, and ends.
It need not go through all of them. -/
def Usable (s : Segment) : Prop := ∃ os, s.Chained s.freeHead os ∧ os.Nodup

theorem Sound.usable (h : s.Sound capacity) : s.Usable := by
  obtain ⟨os, hch, hd, -⟩ := h.chain
  exact ⟨os, hch, hd⟩

theorem usable_empty : ({} : Segment).Usable := ⟨[], rfl, List.nodup_nil⟩

/-! ## The view -/

theorem slot?_eq_some_iff {x : Slot} :
    s.slot? o = some x ↔ o ≠ 0 ∧ s.slots[o.toNat - 1]? = some x := by
  simp only [slot?]
  split <;> simp_all

theorem ne_zero_of_next? (h : s.next? o = some n) : o ≠ 0 := by
  intro heq
  subst heq
  simp [next?, slot?] at h

theorem slot?_eq_free_iff : s.slot? o = some (.free n) ↔ s.next? o = some n := by
  cases h : s.slot? o with
  | none => simp [next?, h]
  | some x => simp [next?, h, Slot.eq_free_iff]

/-- Writing the slot at an offset changes the view there. -/
theorem slot?_write {x : Slot} (ho : o ≠ 0) {h : UInt16} {l : Nat} :
    ({ slots := s.slots.setIfInBounds (o.toNat - 1) x, freeHead := h, live := l } : Segment).slot? b
      = if b = o then (s.slot? b).map fun _ => x else s.slot? b := by
  simp only [slot?]
  by_cases hb : b = 0
  · simp [hb, ho.symm]
  · simp only [if_neg hb, Array.getElem?_setIfInBounds, eq_comm (a := o.toNat - 1),
      Arena.toNat_pred_inj hb ho]
    split
    next e =>
      subst e
      split
      next hlt => simp [hlt]
      next hge => simp [Array.getElem?_eq_none (Nat.le_of_not_lt hge)]
    next => rfl

theorem slot?_occupy_reused (h : s.next? o = some n) :
    (s.occupy e (.reused o n)).slot? b = if b = o then some (.live e) else s.slot? b := by
  rw [occupy, slot?_write (ne_zero_of_next? h)]
  split
  next hb =>
    rw [hb, slot?_eq_free_iff.2 h]
    rfl
  next => rfl

theorem slot?_occupy_fresh (h : o.toNat = s.slots.size + 1) :
    (s.occupy e (.fresh o)).slot? b = if b = o then some (.live e) else s.slot? b := by
  have ho : o ≠ 0 := by
    intro heq
    subst heq
    simp at h
  simp only [occupy, slot?]
  by_cases hb : b = 0
  · simp [hb, ho.symm]
  · have hsize : b.toNat - 1 = s.slots.size ↔ b = o := by
      rw [← Arena.toNat_pred_inj hb ho, h]
      simp
    simp only [if_neg hb, Array.getElem?_push, hsize]

theorem slot?_free (h : (s.slot? o).isSome) :
    (s.free o).slot? b = if b = o then some (.free s.freeHead) else s.slot? b := by
  obtain ⟨x, hx⟩ := Option.isSome_iff_exists.1 h
  rw [free, slot?_write (slot?_eq_some_iff.1 hx).1]
  split
  next hb =>
    rw [hb, hx]
    rfl
  next => rfl

/-! ## The free chain -/

theorem Chained.congr (h : s.Chained o os) (hs : ∀ a ∈ os, s'.next? a = s.next? a) :
    s'.Chained o os := by
  induction os generalizing o with
  | nil => exact h
  | cons a os ih =>
    obtain ⟨ho, n, hn, hrest⟩ := h
    refine ⟨ho, n, (hs a List.mem_cons_self).trans hn, ih hrest fun b hb => ?_⟩
    exact hs b (List.mem_cons_of_mem a hb)

theorem Chained.next_isSome (h : s.Chained o os) {a : UInt16} (ha : a ∈ os) :
    (s.next? a).isSome := by
  induction os generalizing o with
  | nil => simp at ha
  | cons b os ih =>
    obtain ⟨-, n, hn, hrest⟩ := h
    rcases List.mem_cons.1 ha with rfl | ha
    · simp [hn]
    · exact ih hrest ha

theorem sound_empty : ({} : Segment).Sound capacity where
  size_le := Nat.zero_le _
  live_eq := rfl
  chain := ⟨[], rfl, List.nodup_nil, fun o h => by simp [next?, slot?] at h⟩

/-! ## What keeps a segment sound -/

theorem next?_of_slot? (h : ∀ b, s'.slot? b = if b = o then some (.live e) else s.slot? b) :
    s'.next? b = if b = o then none else s.next? b := by
  simp only [next?, h]
  split <;> rfl

theorem Sound.occupy_reused (h : s.Sound capacity) (ho : s.next? s.freeHead = some n) :
    (s.occupy e (.reused s.freeHead n)).Sound capacity := by
  have hslot := fun b => slot?_occupy_reused (e := e) (b := b) ho
  have hnext := fun b => next?_of_slot? (b := b) hslot
  obtain ⟨hne, hget⟩ := slot?_eq_some_iff.1 (slot?_eq_free_iff.2 ho)
  obtain ⟨hlt, hfree⟩ := Array.getElem?_eq_some_iff.1 hget
  obtain ⟨os, hch, hd, hall⟩ := h.chain
  refine ⟨by simpa [occupy] using h.size_le, ?_, ?_⟩
  · simp only [occupy, Array.setIfInBounds_def, dif_pos hlt, Array.countP_set, hfree, h.live_eq]
    rfl
  · cases os with
    | nil => exact absurd hch hne
    | cons a os =>
      obtain ⟨hhead, m, hm, hrest⟩ := hch
      obtain rfl : n = m := Option.some.inj (ho.symm.trans (hhead ▸ hm))
      obtain ⟨hnot, hd⟩ := List.nodup_cons.1 hd
      refine ⟨os, hrest.congr fun b hb => ?_, hd, fun b hb => ?_⟩
      · rw [hnext, if_neg]
        intro heq
        subst heq
        exact hnot (hhead ▸ hb)
      · rw [hnext] at hb
        split at hb
        next => simp at hb
        next hbo => exact List.mem_of_ne_of_mem (hhead ▸ hbo) (hall b hb)

theorem Sound.occupy_fresh (h : s.Sound capacity) (hlt : s.slots.size < capacity)
    (ho : o.toNat = s.slots.size + 1) : (s.occupy e (.fresh o)).Sound capacity := by
  have hslot := fun b => slot?_occupy_fresh (e := e) (b := b) ho
  have hnext := fun b => next?_of_slot? (b := b) hslot
  obtain ⟨os, hch, hd, hall⟩ := h.chain
  refine ⟨by simp [occupy]; omega, ?_, os, ?_, hd, fun b hb => ?_⟩
  · simp only [occupy, Array.countP_push, h.live_eq]
    rfl
  · refine hch.congr fun b hb => ?_
    rw [hnext, if_neg]
    intro heq
    subst heq
    obtain ⟨m, hm⟩ := Option.isSome_iff_exists.1 (hch.next_isSome hb)
    obtain ⟨-, hget⟩ := slot?_eq_some_iff.1 (slot?_eq_free_iff.2 hm)
    have := (Array.getElem?_eq_some_iff.1 hget).1
    omega
  · rw [hnext] at hb
    split at hb
    next => simp at hb
    next => exact hall b hb

/-- A slot that is freed comes before the chain that there was, which did not go through it. -/
theorem Chained.free (h : s.Chained s.freeHead os) (ho : s.slot? o = some (.live e)) :
    o ∉ os ∧ (s.free o).Chained (s.free o).freeHead (o :: os) ∧
      ∀ b, (s.free o).next? b = if b = o then some s.freeHead else s.next? b := by
  have hnext : ∀ b, (s.free o).next? b = if b = o then some s.freeHead else s.next? b := by
    intro b
    simp only [next?, slot?_free (Option.isSome_of_eq_some ho)]
    split <;> rfl
  have hnot : o ∉ os := fun hmem => by
    have := h.next_isSome hmem
    simp [next?, ho, Slot.next?] at this
  refine ⟨hnot, ⟨rfl, s.freeHead, ?_, ?_⟩, hnext⟩
  · rw [hnext, if_pos rfl]
  · refine h.congr fun b hb => ?_
    rw [hnext, if_neg]
    intro heq
    subst heq
    exact hnot hb

theorem Usable.free (h : s.Usable) (ho : s.slot? o = some (.live e)) : (s.free o).Usable := by
  obtain ⟨os, hch, hd⟩ := h
  obtain ⟨hnot, hchained, -⟩ := hch.free ho
  exact ⟨o :: os, hchained, List.nodup_cons.2 ⟨hnot, hd⟩⟩

theorem Sound.free (h : s.Sound capacity) (ho : s.slot? o = some (.live e)) :
    (s.free o).Sound capacity := by
  obtain ⟨hne, hget⟩ := slot?_eq_some_iff.1 ho
  obtain ⟨hlt, hlive⟩ := Array.getElem?_eq_some_iff.1 hget
  obtain ⟨os, hch, hd, hall⟩ := h.chain
  obtain ⟨hnot, hchained, hnext⟩ := hch.free ho
  refine ⟨by simpa [Segment.free] using h.size_le, ?_, o :: os, hchained,
    List.nodup_cons.2 ⟨hnot, hd⟩, fun b hb => ?_⟩
  · simp only [Segment.free, Array.setIfInBounds_def, dif_pos hlt, Array.countP_set, hlive,
      h.live_eq]
    rfl
  · rw [hnext] at hb
    split at hb
    next hbo => exact hbo ▸ List.mem_cons_self
    next => exact List.mem_cons_of_mem o (hall b hb)

/-- Changed elements do not matter to the free chain. -/
theorem next?_modify (s : Segment) (i : Nat) (f : Element → Element) (b : UInt16) :
    ({ s with slots := s.slots.modify i (Slot.update f) } : Segment).next? b = s.next? b := by
  simp only [next?, slot?, Array.getElem?_modify]
  split
  · rfl
  · split
    · cases s.slots[b.toNat - 1]? <;> simp
    · rfl

theorem Usable.modify (h : s.Usable) (i : Nat) (f : Element → Element) :
    ({ s with slots := s.slots.modify i (Slot.update f) } : Segment).Usable := by
  obtain ⟨os, hch, hd⟩ := h
  exact ⟨os, hch.congr fun b _ => next?_modify s i f b, hd⟩

theorem Sound.modify (h : s.Sound capacity) (i : Nat) (f : Element → Element) :
    ({ s with slots := s.slots.modify i (Slot.update f) } : Segment).Sound capacity := by
  have hnext := next?_modify s i f
  obtain ⟨os, hch, hd, hall⟩ := h.chain
  refine ⟨by simpa using h.size_le, ?_, os, hch.congr fun b _ => hnext b, hd, fun b hb => ?_⟩
  · have hmap : (s.slots.modify i (Slot.update f)).map Slot.isLive = s.slots.map Slot.isLive := by
      ext j : 1
      · simp
      · simp only [Array.getElem_map, Array.getElem_modify]
        split <;> simp
    have hcount : ∀ xs : Array Slot, xs.countP Slot.isLive = (xs.map Slot.isLive).countP id := by
      intro xs
      rw [Array.countP_map]
      rfl
    rw [h.live_eq, hcount, hcount, hmap]
  · exact hall b (hnext b ▸ hb)

/-! ## The slot that is handed out next -/

theorem vacancy?_eq (s : Segment) (capacity : Nat) :
    s.vacancy? capacity =
      if s.freeHead ≠ 0 then (s.next? s.freeHead).elim (.error (.corrupt .liveOnFreeChain))
        fun n => .ok (some (.reused s.freeHead n))
      else if s.slots.size < capacity then .ok (some (.fresh (.ofNat (s.slots.size + 1))))
      else .ok none := by
  rw [vacancy?, next?]
  rcases s.slot? s.freeHead with - | (n | e) <;> rfl

/-- Changed elements do not matter to which slot is handed out next. -/
theorem vacancy?_modify (s : Segment) (i : Nat) (f : Element → Element) (capacity : Nat) :
    ({ s with slots := s.slots.modify i (Slot.update f) } : Segment).vacancy? capacity
      = s.vacancy? capacity := by
  simp only [vacancy?_eq, next?_modify, Array.size_modify]

/-- A slot that was freed is the next one to be handed out. -/
theorem vacancy?_free (h : (s.slot? o).isSome) (capacity : Nat) :
    (s.free o).vacancy? capacity = .ok (some (.reused o s.freeHead)) := by
  obtain ⟨x, hx⟩ := Option.isSome_iff_exists.1 h
  have hhead : (s.free o).freeHead ≠ 0 := (slot?_eq_some_iff.1 hx).1
  have hnext : (s.free o).next? (s.free o).freeHead = some s.freeHead :=
    slot?_eq_free_iff.1 ((slot?_free h).trans (if_pos rfl))
  rw [vacancy?_eq, if_pos hhead, hnext]
  rfl

/-- A segment hands out the top of its free chain, or the first slot that was never engaged, or is
full, unless the top of its free chain is not free. -/
theorem vacancy?_cases (s : Segment) (hc : capacity ≤ 65535) :
    (∃ n, s.next? s.freeHead = some n ∧
      s.vacancy? capacity = .ok (some (.reused s.freeHead n))) ∨
    (∃ o, s.freeHead = 0 ∧ s.slots.size < capacity ∧ o.toNat = s.slots.size + 1 ∧
      s.vacancy? capacity = .ok (some (.fresh o))) ∨
    (s.freeHead = 0 ∧ capacity ≤ s.slots.size ∧ s.vacancy? capacity = .ok none) ∨
    (s.freeHead ≠ 0 ∧ s.next? s.freeHead = none ∧
      s.vacancy? capacity = .error (.corrupt .liveOnFreeChain)) := by
  rw [vacancy?_eq]
  by_cases hhead : s.freeHead = 0
  · rw [if_neg (not_not_intro hhead)]
    by_cases hlt : s.slots.size < capacity
    · rw [if_pos hlt]
      refine .inr (.inl ⟨.ofNat (s.slots.size + 1), hhead, hlt, ?_, rfl⟩)
      rw [UInt16.toNat_ofNat', Nat.mod_eq_of_lt (by omega)]
    · rw [if_neg hlt]
      exact .inr (.inr (.inl ⟨hhead, Nat.le_of_not_lt hlt, rfl⟩))
  · rw [if_pos hhead]
    cases hn : s.next? s.freeHead with
    | some n => exact .inl ⟨n, rfl, rfl⟩
    | none => exact .inr (.inr (.inr ⟨hhead, rfl, rfl⟩))

/-- Whether a segment is full is a matter of its room. -/
theorem vacancy?_eq_none_iff (s : Segment) (hc : capacity ≤ 65535) :
    s.vacancy? capacity = .ok none ↔ s.hasRoom capacity = false := by
  rcases s.vacancy?_cases hc with ⟨n, hn, hv⟩ | ⟨o, hhead, hlt, -, hv⟩ | ⟨hhead, hle, hv⟩ |
    ⟨hhead, -, hv⟩
  · simp [hv, hasRoom, ne_zero_of_next? hn]
  · simp [hv, hasRoom, hhead, hlt]
  · simp [hv, hasRoom, hhead, hle]
  · simp [hv, hasRoom, hhead]

/-- The slot that is handed out is not live, and putting an element there changes no other slot. -/
theorem slot?_occupy (hc : capacity ≤ 65535) {v : Vacancy}
    (hv : s.vacancy? capacity = .ok (some v)) (e : Element) :
    (∀ e', s.slot? v.offset ≠ some (.live e')) ∧
      ∀ b, (s.occupy e v).slot? b = if b = v.offset then some (.live e) else s.slot? b := by
  rcases s.vacancy?_cases hc with ⟨n, hn, hw⟩ | ⟨o, -, -, ho, hw⟩ | ⟨-, -, hw⟩ | ⟨-, -, hw⟩
  · obtain rfl : Vacancy.reused s.freeHead n = v := by simpa using hw.symm.trans hv
    refine ⟨fun e' he => ?_, fun b => slot?_occupy_reused hn⟩
    simp [next?, show s.slot? s.freeHead = some (.live e') from he, Slot.next?] at hn
  · obtain rfl : Vacancy.fresh o = v := by simpa using hw.symm.trans hv
    refine ⟨fun e' he => ?_, fun b => slot?_occupy_fresh ho⟩
    have := (Array.getElem?_eq_some_iff.1 (slot?_eq_some_iff.1 he).2).1
    have : o.toNat - 1 < s.slots.size := this
    omega
  · simp [hw] at hv
  · simp [hw] at hv

/-- A segment with a usable chain hands out a slot when it has room. -/
theorem Usable.vacancy?_of_room (h : s.Usable) (hc : capacity ≤ 65535)
    (hroom : s.hasRoom capacity = true) : ∃ v, s.vacancy? capacity = .ok (some v) := by
  obtain ⟨os, hch, -⟩ := h
  rcases s.vacancy?_cases hc with ⟨n, -, hv⟩ | ⟨o, -, -, -, hv⟩ | ⟨-, -, hv⟩ | ⟨hhead, hn, -⟩
  · exact ⟨_, hv⟩
  · exact ⟨_, hv⟩
  · simp [(s.vacancy?_eq_none_iff hc).1 hv] at hroom
  · cases os with
    | nil => exact absurd hch hhead
    | cons a os =>
      have := hch.next_isSome List.mem_cons_self
      rw [← hch.1, hn] at this
      cases this

/-- Putting an element into the slot that is handed out takes it off the chain, if it was on it. So
the chain that is left is usable just when the one before was. -/
theorem usable_occupy_iff (hc : capacity ≤ 65535) {v : Vacancy}
    (hv : s.vacancy? capacity = .ok (some v)) (e : Element) :
    (s.occupy e v).Usable ↔ s.Usable := by
  obtain ⟨-, hslot⟩ := slot?_occupy hc hv e
  have hnext := fun b => next?_of_slot? (b := b) hslot
  -- a chain that goes round the slot is the same before and after
  have hround : ∀ {o os}, v.offset ∉ os → ((s.occupy e v).Chained o os ↔ s.Chained o os) := by
    intro o os hnot
    have hsame : ∀ a ∈ os, (s.occupy e v).next? a = s.next? a := by
      intro a ha
      have hne : a ≠ v.offset := fun heq => hnot (heq ▸ ha)
      rw [hnext, if_neg hne]
    exact ⟨fun h => h.congr fun a ha => (hsame a ha).symm, fun h => h.congr hsame⟩
  have hnot : ∀ {o os}, (s.occupy e v).Chained o os → v.offset ∉ os := by
    intro o os hch hmem
    have := hch.next_isSome hmem
    rw [hnext, if_pos rfl] at this
    cases this
  rcases s.vacancy?_cases hc with ⟨n, hn, hw⟩ | ⟨o, hhead, -, ho, hw⟩ | ⟨-, -, hw⟩ | ⟨-, -, hw⟩
  · obtain rfl : Vacancy.reused s.freeHead n = v := by simpa using hw.symm.trans hv
    constructor
    · rintro ⟨os, hch, hd⟩
      have hfree := hnot hch
      refine ⟨s.freeHead :: os, ⟨rfl, n, hn, (hround hfree).1 hch⟩, List.nodup_cons.2 ⟨hfree, hd⟩⟩
    · rintro ⟨os, hch, hd⟩
      cases os with
      | nil => exact absurd hch (ne_zero_of_next? hn)
      | cons a os =>
        obtain ⟨hhead, m, hm, hrest⟩ := hch
        obtain rfl : n = m := Option.some.inj (hn.symm.trans (hhead ▸ hm))
        obtain ⟨hfree, hd⟩ := List.nodup_cons.1 hd
        exact ⟨os, (hround (hhead ▸ hfree)).2 hrest, hd⟩
  · -- the chain is empty, before and after
    obtain rfl : Vacancy.fresh o = v := by simpa using hw.symm.trans hv
    exact ⟨fun _ => ⟨[], hhead, List.nodup_nil⟩, fun _ => ⟨[], hhead, List.nodup_nil⟩⟩
  · simp [hw] at hv
  · simp [hw] at hv

/-- A sound segment hands out the top of its free chain, or the first slot that was never engaged,
or is full. -/
theorem Sound.vacancy?_cases (h : s.Sound capacity) (hc : capacity ≤ 65535) :
    (∃ n, s.next? s.freeHead = some n ∧
      s.vacancy? capacity = .ok (some (.reused s.freeHead n))) ∨
    (∃ o, s.freeHead = 0 ∧ s.slots.size < capacity ∧ o.toNat = s.slots.size + 1 ∧
      s.vacancy? capacity = .ok (some (.fresh o))) ∨
    (s.freeHead = 0 ∧ capacity ≤ s.slots.size ∧ s.vacancy? capacity = .ok none) := by
  rcases Segment.vacancy?_cases s hc with hcase | hcase | hcase | ⟨hhead, -, hv⟩
  · exact .inl hcase
  · exact .inr (.inl hcase)
  · exact .inr (.inr hcase)
  · have hroom : s.hasRoom capacity = true := by simp [hasRoom, hhead]
    obtain ⟨v, hv'⟩ := h.usable.vacancy?_of_room hc hroom
    simp [hv] at hv'

/-- An element can be put into the slot that is handed out next. -/
theorem Sound.occupy (h : s.Sound capacity) (hc : capacity ≤ 65535) {v : Vacancy}
    (hv : s.vacancy? capacity = .ok (some v)) (e : Element) : (s.occupy e v).Sound capacity := by
  rcases h.vacancy?_cases hc with ⟨n, hn, hw⟩ | ⟨o, hhead, hlt, ho, hw⟩ | ⟨-, -, hw⟩
  · obtain rfl : Vacancy.reused s.freeHead n = v := by simpa using hw.symm.trans hv
    exact h.occupy_reused hn
  · obtain rfl : Vacancy.fresh o = v := by simpa using hw.symm.trans hv
    exact h.occupy_fresh hlt ho
  · simp [hw] at hv

end Segment

end SemanticNet
