import SemanticNet.Dump.SegmentImage
import SemanticNet.Proofs.Reading

/-!
# Restoring a segment

An image is accepted when its offsets are in range and each stands for one slot only
(`SegmentImage.Fits`), and then it says what each slot of the segment holds
(`SegmentImage.Restores`). The image of a segment with a usable free chain is accepted and keeps the
live slots (`Segment.Usable.slot?_reread`); that of a sound segment keeps all (`Sound.reread_eq`).
-/

namespace SemanticNet

namespace Segment

variable {s : Segment} {o n : UInt16} {os : List UInt16} {capacity : Nat} {x : Slot}

theorem toNat_le_of_slot? (h : s.slot? o = some x) : o ≠ 0 ∧ o.toNat ≤ s.slots.size := by
  obtain ⟨h0, hget⟩ := slot?_eq_some_iff.1 h
  have hlt := (Array.getElem?_eq_some_iff.1 hget).1
  exact ⟨h0, by omega⟩

/-- The free chain is listed link by link. -/
theorem chainFrom_spec (fuel : Nat) (h : s.Chained o os) (hfuel : os.length ≤ fuel) :
    (s.chainFrom fuel o).map Prod.fst = os ∧
      ∀ p ∈ s.chainFrom fuel o, s.slot? p.1 = some (.free p.2) ∧ (p.2 = 0 ∨ p.2 ∈ os) := by
  induction os generalizing o fuel with
  | nil =>
    have h0 : o = 0 := h
    have hnil : s.chainFrom fuel o = [] := by
      cases fuel <;> simp [chainFrom, h0, slot?]
    simp [hnil]
  | cons a os ih =>
    obtain ⟨rfl, n, hn, hrest⟩ := h
    cases fuel with
    | zero => simp at hfuel
    | succ fuel =>
      have hslot := slot?_eq_free_iff.2 hn
      obtain ⟨hmap, hall⟩ := ih fuel hrest (Nat.le_of_succ_le_succ hfuel)
      have hstep : s.chainFrom (fuel + 1) o = (o, n) :: s.chainFrom fuel n := by
        rw [chainFrom, hslot]
      rw [hstep]
      refine ⟨by rw [List.map_cons, hmap], fun p hp => ?_⟩
      rcases List.mem_cons.1 hp with rfl | hp
      · refine ⟨hslot, ?_⟩
        cases os with
        | nil => exact .inl hrest
        | cons b os => exact .inr (List.mem_cons_of_mem o (hrest.1 ▸ List.mem_cons_self))
      · obtain ⟨hslot, hnext⟩ := hall p hp
        exact ⟨hslot, hnext.imp_right (List.mem_cons_of_mem o)⟩

/-- There are no more free slots than slots. -/
theorem Chained.length_le (h : s.Chained o os) (hd : os.Nodup) : os.length ≤ s.slots.size := by
  have hmap : (os.map UInt16.toNat).Nodup := hd.map fun a b => UInt16.toNat_inj.1
  have hsub : os.map UInt16.toNat ⊆ List.range' 1 s.slots.size := by
    intro m hm
    obtain ⟨a, ha, rfl⟩ := List.mem_map.1 hm
    obtain ⟨n, hn⟩ := Option.isSome_iff_exists.1 (h.next_isSome ha)
    obtain ⟨h0, hle⟩ := toNat_le_of_slot? (slot?_eq_free_iff.2 hn)
    have : a.toNat ≠ 0 := fun e => h0 (UInt16.toNat_inj.1 e)
    exact List.mem_range'_1.2 ⟨by omega, by omega⟩
  have hle := (List.subperm_of_subset hmap hsub).length_le
  rwa [List.length_map, List.length_range'] at hle

/-- The elements of a segment are listed with distinct offsets. -/
theorem nodup_elements (h : s.slots.size ≤ 65535) : (s.elements.map Prod.fst).Nodup := by
  refine List.pairwise_map.2 ((pairwise_elements h).imp fun hlt heq => ?_)
  rw [heq] at hlt
  exact Nat.lt_irrefl _ hlt

/-- There are as many elements as live slots. -/
theorem length_elements (s : Segment) : s.elements.length = s.slots.countP (·.isLive) := by
  rw [elements, List.length_filterMap_eq_countP, ← Array.countP_toList]
  have hmap := List.countP_map (p := Slot.isLive) (f := Prod.fst) (l := s.slots.toList.zipIdx 1)
  rw [List.zipIdx_map_fst] at hmap
  rw [hmap]
  exact List.countP_congr fun p _ => by simp [Slot.isLive]

/-- A usable free chain is listed to its end, each of its slots once. -/
theorem Usable.chain_spec (h : s.Usable) (hsize : s.slots.size ≤ capacity) :
    ((s.chain capacity).map Prod.fst).Nodup ∧
      (∀ p ∈ s.chain capacity, s.slot? p.1 = some (.free p.2) ∧ p.2.toNat ≤ s.slots.size) ∧
      s.freeHead.toNat ≤ s.slots.size ∧ (s.chain capacity).length ≤ s.slots.size := by
  obtain ⟨os, hchain, hd⟩ := h
  have hle : ∀ a ∈ os, a.toNat ≤ s.slots.size := by
    intro a ha
    obtain ⟨n, hn⟩ := Option.isSome_iff_exists.1 (hchain.next_isSome ha)
    exact (toNat_le_of_slot? (slot?_eq_free_iff.2 hn)).2
  have hlen := hchain.length_le hd
  obtain ⟨hmap, hlinks⟩ := chainFrom_spec (capacity + 1) hchain (by omega)
  have hunfold : s.chainFrom (capacity + 1) s.freeHead = s.chain capacity := rfl
  rw [hunfold] at hmap hlinks
  refine ⟨hmap ▸ hd, fun p hp => ?_, ?_, ?_⟩
  · obtain ⟨hslot, hnext⟩ := hlinks p hp
    refine ⟨hslot, ?_⟩
    rcases hnext with h0 | hmem
    · rw [h0]
      exact Nat.zero_le _
    · exact hle _ hmem
  · cases os with
    | nil =>
      have h0 : s.freeHead = 0 := hchain
      rw [h0]
      exact Nat.zero_le _
    | cons a os =>
      rw [hchain.1]
      exact hle a List.mem_cons_self
  · rwa [← List.length_map (f := Prod.fst), hmap]

/-- The free chain of a sound segment lists all its free slots. -/
theorem Sound.mem_chain (h : s.Sound capacity) (ho : s.slot? o = some (.free n)) :
    (o, n) ∈ s.chain capacity := by
  obtain ⟨os, hchain, hd, hall⟩ := h.chain
  have hlen := hchain.length_le hd
  have hsize := h.size_le
  obtain ⟨hmap, hlinks⟩ := chainFrom_spec (capacity + 1) hchain (by omega)
  have hmem := hall o (Option.isSome_of_eq_some (slot?_eq_free_iff.1 ho))
  rw [← hmap] at hmem
  obtain ⟨⟨a, m⟩, hp, rfl⟩ := List.mem_map.1 hmem
  obtain rfl : m = n := by simpa [ho] using ((hlinks _ hp).1).symm
  exact hp

/-- Every slot has an offset. -/
theorem exists_offset {i : Nat} (hi : i < 65535) : ∃ o : UInt16, o ≠ 0 ∧ o.toNat = i + 1 := by
  have hnat : (UInt16.ofNat (i + 1)).toNat = i + 1 := by
    rw [UInt16.toNat_ofNat']
    omega
  refine ⟨.ofNat (i + 1), fun h0 => ?_, hnat⟩
  rw [h0] at hnat
  simp at hnat

/-- The slots of a segment with their offsets are all there is to its slots. -/
theorem slots_ext {s' : Segment} (hsize : s'.slots.size = s.slots.size)
    (hle : s.slots.size ≤ 65535) (h : ∀ o, s'.slot? o = s.slot? o) : s'.slots = s.slots := by
  refine Array.ext_getElem? fun i => ?_
  by_cases hi : i < s.slots.size
  · obtain ⟨o, h0, hnat⟩ := exists_offset (i := i) (by omega)
    have hslot := h o
    rwa [slot?, slot?, if_neg h0, if_neg h0, hnat, Nat.add_sub_cancel] at hslot
  · rw [Array.getElem?_eq_none (by omega), Array.getElem?_eq_none (by omega)]

end Segment

namespace SegmentImage

variable {g : SegmentImage} {s s' : Segment} {o : UInt16} {slots slots' : Partial}
  {ps : List (UInt16 × Slot)} {capacity size : Nat} {x : Slot}

/-! ## Filling slots -/

/-- Of `size` slots those are filled that `ps` lists, and no others. -/
structure Filled (size : Nat) (ps : List (UInt16 × Slot)) (slots : Partial) : Prop where
  size_eq : slots.size = size
  slot : ∀ o x, o ≠ 0 → (slots[o.toNat - 1]? = some (some x) ↔ (o, x) ∈ ps)

theorem filled_nil (size : Nat) : Filled size [] (Array.replicate size none) where
  size_eq := Array.size_replicate
  slot o x _ := by
    rw [Array.getElem?_replicate]
    split <;> simp

/-- The other slots are there, but not filled. -/
theorem Filled.vacant_iff (h : Filled size ps slots) (h0 : o ≠ 0) :
    slots[o.toNat - 1]? = some none ↔ o.toNat ≤ size ∧ o ∉ ps.map Prod.fst := by
  have hpos : o.toNat ≠ 0 := fun h => h0 (UInt16.toNat_inj.1 h)
  have hmem : o ∈ ps.map Prod.fst ↔ ∃ x, slots[o.toNat - 1]? = some (some x) := by
    simp only [h.slot o _ h0, List.mem_map, Prod.exists, exists_and_right, exists_eq_right]
  rw [hmem, ← h.size_eq]
  constructor
  · intro hx
    have := (Array.getElem?_eq_some_iff.1 hx).1
    refine ⟨by omega, ?_⟩
    rintro ⟨x, hx'⟩
    rw [hx] at hx'
    cases hx'
  · rintro ⟨hle, hnot⟩
    have hlt : o.toNat - 1 < slots.size := by omega
    rw [Array.getElem?_eq_getElem hlt] at hnot ⊢
    cases hy : slots[o.toNat - 1] with
    | none => rfl
    | some x => exact absurd ⟨x, by rw [hy]⟩ hnot

/-- The order in which slots are filled does not matter. -/
theorem Filled.congr (h : Filled size ps slots) {qs : List (UInt16 × Slot)}
    (hmem : ∀ p, p ∈ qs ↔ p ∈ ps) : Filled size qs slots where
  size_eq := h.size_eq
  slot o x h0 := (h.slot o x h0).trans (hmem (o, x)).symm

/-- A slot is filled when it is not filled yet. -/
theorem Filled.fill_eq (h : Filled size ps slots) (h0 : o ≠ 0) (hle : o.toNat ≤ size) :
    fill slots o x = if o ∈ ps.map Prod.fst then .error (.corrupt .offsetTwice)
      else .ok (slots.setIfInBounds (o.toNat - 1) (some x)) := by
  by_cases hmem : o ∈ ps.map Prod.fst
  · obtain ⟨⟨o', y⟩, hp, rfl⟩ := List.mem_map.1 hmem
    rw [if_pos hmem, fill, (h.slot _ y h0).2 hp]
  · rw [if_neg hmem, fill, (h.vacant_iff h0).2 ⟨hle, hmem⟩]

theorem Filled.set (h : Filled size ps slots) (h0 : o ≠ 0) (hle : o.toNat ≤ size)
    (hnot : o ∉ ps.map Prod.fst) :
    Filled size ((o, x) :: ps) (slots.setIfInBounds (o.toNat - 1) (some x)) where
  size_eq := by rw [Array.size_setIfInBounds, h.size_eq]
  slot o' x' h0' := by
    have hpos : o.toNat ≠ 0 := fun h => h0 (UInt16.toNat_inj.1 h)
    have hlt : o.toNat - 1 < slots.size := by
      rw [h.size_eq]
      omega
    rw [List.mem_cons, Prod.mk.injEq]
    by_cases hoo : o' = o
    · subst hoo
      have hno : (o', x') ∉ ps := fun hp => hnot (List.mem_map.2 ⟨_, hp, rfl⟩)
      rw [Array.getElem?_setIfInBounds_self_of_lt hlt]
      simp [hno, eq_comm]
    · have hne : o.toNat - 1 ≠ o'.toNat - 1 := fun heq =>
        hoo ((Arena.toNat_pred_inj h0 h0').1 heq).symm
      rw [Array.getElem?_setIfInBounds_ne hne, h.slot o' x' h0']
      simp [hoo]

section Filling

variable {β : Type} {step : Partial → β → Except Failure Partial} (entry : β → UInt16 × Slot)
  {admits : β → Bool} {d : Damage}

/-- When a list of slots could be filled, each was admitted, none was filled before, and now they
are. -/
theorem Filled.of_foldlM
    (hstep : ∀ b slots, step slots b
      = if admits b then fill slots (entry b).1 (entry b).2 else .error (.corrupt d))
    (hadmits : ∀ b, admits b = true → (entry b).1 ≠ 0 ∧ (entry b).1.toNat ≤ size)
    {bs : List β} (h : Filled size ps slots) (hd : (ps.map Prod.fst).Nodup)
    (hrun : bs.foldlM step slots = .ok slots') :
    (∀ b ∈ bs, admits b = true) ∧ ((bs.map entry ++ ps).map Prod.fst).Nodup ∧
      Filled size (bs.map entry ++ ps) slots' := by
  induction bs generalizing slots ps with
  | nil =>
    obtain rfl := Except.ok.inj hrun
    exact ⟨by simp, hd, h⟩
  | cons b bs ih =>
    rw [List.foldlM_cons, hstep] at hrun
    obtain ⟨slots₁, hfirst, hrest⟩ := bind_eq_ok_iff.1 hrun
    by_cases hb : admits b = true
    · obtain ⟨h0, hle⟩ := hadmits b hb
      rw [if_pos hb, h.fill_eq h0 hle] at hfirst
      by_cases hmem : (entry b).1 ∈ ps.map Prod.fst
      · rw [if_pos hmem] at hfirst
        cases hfirst
      · rw [if_neg hmem] at hfirst
        obtain rfl := Except.ok.inj hfirst
        obtain ⟨hall, hnodup, hfilled⟩ := ih (h.set h0 hle hmem)
          (List.nodup_cons.2 ⟨hmem, hd⟩) hrest
        have hperm : (bs.map entry ++ entry b :: ps).Perm (entry b :: (bs.map entry ++ ps)) :=
          List.perm_middle
        exact ⟨List.forall_mem_cons.2 ⟨hb, hall⟩, (hperm.map Prod.fst).nodup_iff.1 hnodup,
          hfilled.congr fun p => hperm.symm.mem_iff⟩
    · rw [if_neg hb] at hfirst
      cases hfirst

/-- A list of admitted slots with distinct offsets can be filled. -/
theorem Filled.exists_foldlM
    (hstep : ∀ b slots, step slots b
      = if admits b then fill slots (entry b).1 (entry b).2 else .error (.corrupt d))
    (hadmits : ∀ b, admits b = true → (entry b).1 ≠ 0 ∧ (entry b).1.toNat ≤ size)
    {bs : List β} (h : Filled size ps slots) (hall : ∀ b ∈ bs, admits b = true)
    (hd : ((bs.map entry ++ ps).map Prod.fst).Nodup) :
    ∃ slots', bs.foldlM step slots = .ok slots' := by
  induction bs generalizing slots ps with
  | nil => exact ⟨slots, rfl⟩
  | cons b bs ih =>
    obtain ⟨hb, hall⟩ := List.forall_mem_cons.1 hall
    obtain ⟨h0, hle⟩ := hadmits b hb
    have hperm : (entry b :: (bs.map entry ++ ps)).Perm (bs.map entry ++ entry b :: ps) :=
      List.perm_middle.symm
    have hmem : (entry b).1 ∉ ps.map Prod.fst := by
      intro hmem
      obtain ⟨p, hp, heq⟩ := List.mem_map.1 hmem
      exact (List.nodup_cons.1 hd).1 (List.mem_map.2 ⟨p, List.mem_append_right _ hp, heq⟩)
    obtain ⟨slots', hrest⟩ := ih (h.set h0 hle hmem) hall ((hperm.map Prod.fst).nodup_iff.1 hd)
    refine ⟨slots', ?_⟩
    rw [List.foldlM_cons, hstep, if_pos hb, h.fill_eq h0 hle, if_neg hmem]
    exact hrest

end Filling

/-! ## The segment of an image -/

/-- The slots that an image mentions, with their offsets. -/
def entries (g : SegmentImage) : List (UInt16 × Slot) :=
  g.free.map (fun p => (p.1, .free p.2)) ++ g.live.map fun p => (p.1, .live p.2)

@[simp] theorem mem_entries_live {e : Element} : (o, .live e) ∈ g.entries ↔ (o, e) ∈ g.live := by
  simp [entries]

@[simp] theorem mem_entries_free {n : UInt16} : (o, .free n) ∈ g.entries ↔ (o, n) ∈ g.free := by
  simp [entries]

/-- No offset of the image is out of range, and none occurs twice. -/
structure Fits (g : SegmentImage) (capacity : Nat) : Prop where
  last_le : g.lastEngaged.toNat ≤ capacity
  head_le : g.freeHead ≤ g.lastEngaged
  free : ∀ p ∈ g.free, g.inRange p.1 = true ∧ p.2 ≤ g.lastEngaged
  live : ∀ p ∈ g.live, g.inRange p.1 = true
  nodup : (g.entries.map Prod.fst).Nodup

/-- What an image says about its segment. A slot that it does not mention ends the chain. -/
structure Restores (g : SegmentImage) (s : Segment) : Prop where
  size_eq : s.slots.size = g.lastEngaged.toNat
  head : s.freeHead = g.freeHead
  live : s.live = g.live.length
  slot : ∀ o x, s.slot? o = some x ↔ (o, x) ∈ g.entries ∨
    g.inRange o = true ∧ o ∉ g.entries.map Prod.fst ∧ x = .free 0

theorem inRange_iff : g.inRange o = true ↔ o ≠ 0 ∧ o.toNat ≤ g.lastEngaged.toNat := by
  simp [inRange, UInt16.le_iff_toNat_le]

theorem Fits.ne_zero (h : g.Fits capacity) : ∀ p ∈ g.entries, p.1 ≠ 0 := by
  intro p hp
  rcases List.mem_append.1 hp with hp | hp
  · obtain ⟨q, hq, rfl⟩ := List.mem_map.1 hp
    exact (inRange_iff.1 (h.free q hq).1).1
  · obtain ⟨q, hq, rfl⟩ := List.mem_map.1 hp
    exact (inRange_iff.1 (h.live q hq)).1

/-- The live slots are those that the image lists. -/
theorem Restores.slot_live (h : g.Restores s) {e : Element} :
    s.slot? o = some (.live e) ↔ (o, e) ∈ g.live := by
  simp [h.slot]

/-- An image says all about its segment. -/
theorem Restores.unique (h : g.Restores s) (h' : g.Restores s') : s' = s := by
  have hslots : s'.slots = s.slots := by
    refine Segment.slots_ext (h'.size_eq.trans h.size_eq.symm) ?_ fun o => ?_
    · have := g.lastEngaged.toNat_lt
      rw [h.size_eq]
      omega
    · exact Option.ext fun x => (h'.slot o x).trans (h.slot o x).symm
  obtain ⟨slots, head, live⟩ := s
  obtain ⟨slots', head', live'⟩ := s'
  obtain rfl : slots' = slots := hslots
  obtain rfl : head' = head := h'.head.trans h.head.symm
  obtain rfl : live' = live := h'.live.trans h.live.symm
  rfl

/-- Slots that are filled with what the image mentions make up what it says. -/
theorem Filled.restores (h : Filled g.lastEngaged.toNat g.entries slots)
    (hrange : ∀ p ∈ g.entries, p.1 ≠ 0) :
    g.Restores
      { slots := slots.map (·.getD (.free 0))
        freeHead := g.freeHead
        live := g.live.length } where
  size_eq := by rw [Array.size_map, h.size_eq]
  head := rfl
  live := rfl
  slot o x := by
    rw [Segment.slot?_eq_some_iff, Array.getElem?_map, Option.map_eq_some_iff]
    constructor
    · rintro ⟨h0, y, hy, rfl⟩
      cases y with
      | some z => exact .inl ((h.slot o z h0).1 hy)
      | none =>
        obtain ⟨hle, hnot⟩ := (h.vacant_iff h0).1 hy
        exact .inr ⟨inRange_iff.2 ⟨h0, hle⟩, hnot, rfl⟩
    · rintro (hmem | ⟨hin, hnot, rfl⟩)
      · have h0 : o ≠ 0 := hrange _ hmem
        exact ⟨h0, some x, (h.slot o x h0).2 hmem, rfl⟩
      · obtain ⟨h0, hle⟩ := inRange_iff.1 hin
        exact ⟨h0, none, (h.vacant_iff h0).2 ⟨hle, hnot⟩, rfl⟩

theorem fillFree_eq (slots : Partial) (p : UInt16 × UInt16) :
    g.fillFree slots p = if g.inRange p.1 && decide (p.2 ≤ g.lastEngaged)
      then fill slots p.1 (.free p.2) else .error (.corrupt .freeOffsetRange) := rfl

theorem fillLive_eq (slots : Partial) (p : UInt16 × Element) :
    g.fillLive slots p = if g.inRange p.1 then fill slots p.1 (.live p.2)
      else .error (.corrupt .elementOffsetRange) := rfl

/-- An image is accepted only when it fits, and then it says what comes of it. -/
theorem restore_ok (h : g.restore capacity = .ok s) : g.Fits capacity ∧ g.Restores s := by
  unfold restore at h
  split at h
  · cases h
  next hbounds =>
    obtain ⟨slots₁, hfree, h⟩ := bind_eq_ok_iff.1 h
    obtain ⟨slots₂, hlive, h⟩ := bind_eq_ok_iff.1 h
    cases h
    simp only [Bool.or_eq_true, decide_eq_true_eq, not_or, Nat.not_lt, UInt16.not_lt] at hbounds
    obtain ⟨hallFree, hnodup₁, hfilled₁⟩ := Filled.of_foldlM (fun p => (p.1, .free p.2))
      (fun p slots => fillFree_eq slots p)
      (fun p hp => inRange_iff.1 (Bool.and_eq_true_iff.1 hp).1)
      (filled_nil g.lastEngaged.toNat) List.nodup_nil hfree
    obtain ⟨hallLive, hnodup₂, hfilled₂⟩ := Filled.of_foldlM (fun p => (p.1, .live p.2))
      (fun p slots => fillLive_eq slots p)
      (fun p hp => inRange_iff.1 hp) hfilled₁ hnodup₁ hlive
    rw [List.append_nil] at hnodup₂ hfilled₂
    have hfits : g.Fits capacity := by
      refine ⟨hbounds.1, hbounds.2, fun p hp => ?_, hallLive, ?_⟩
      · simpa using hallFree p hp
      · exact (List.perm_append_comm.map Prod.fst).nodup_iff.1 hnodup₂
    have hfilled : Filled g.lastEngaged.toNat g.entries slots₂ :=
      hfilled₂.congr fun p => List.perm_append_comm.mem_iff
    exact ⟨hfits, hfilled.restores hfits.ne_zero⟩

/-- An image that fits is accepted. -/
theorem Fits.restore (h : g.Fits capacity) : ∃ s, g.restore capacity = .ok s := by
  have hadmitsFree : ∀ p : UInt16 × UInt16, (g.inRange p.1 && decide (p.2 ≤ g.lastEngaged)) = true →
      p.1 ≠ 0 ∧ p.1.toNat ≤ g.lastEngaged.toNat :=
    fun p hp => inRange_iff.1 (Bool.and_eq_true_iff.1 hp).1
  have hnodup : ((g.live.map (fun p : UInt16 × Element => (p.1, Slot.live p.2)) ++
      (g.free.map (fun p : UInt16 × UInt16 => (p.1, Slot.free p.2)) ++ [])).map
        Prod.fst).Nodup := by
    rw [List.append_nil]
    exact (List.perm_append_comm.map Prod.fst).nodup_iff.1 h.nodup
  have hnodup₁ := hnodup
  rw [List.map_append] at hnodup₁
  obtain ⟨slots₁, hfree⟩ := Filled.exists_foldlM (fun p => (p.1, .free p.2))
    (fun p slots => fillFree_eq slots p) hadmitsFree (filled_nil g.lastEngaged.toNat)
    (fun p hp => by simpa using h.free p hp) hnodup₁.of_append_right
  obtain ⟨-, -, hfilled₁⟩ := Filled.of_foldlM (fun p => (p.1, .free p.2))
    (fun p slots => fillFree_eq slots p) hadmitsFree (filled_nil g.lastEngaged.toNat)
    List.nodup_nil hfree
  obtain ⟨slots₂, hlive⟩ := Filled.exists_foldlM (fun p => (p.1, .live p.2))
    (fun p slots => fillLive_eq slots p) (fun p hp => inRange_iff.1 hp) hfilled₁ h.live hnodup
  have hbounds : (decide (capacity < g.lastEngaged.toNat) ||
      decide (g.lastEngaged < g.freeHead)) = false := by
    have hlast := h.last_le
    have hhead := UInt16.le_iff_toNat_le.1 h.head_le
    simp only [UInt16.lt_iff_toNat_lt, Bool.or_eq_false_iff, decide_eq_false_iff_not]
    omega
  refine ⟨{ slots := slots₂.map (·.getD (.free 0)), freeHead := g.freeHead, live := g.live.length },
    ?_⟩
  rw [SegmentImage.restore, hbounds, if_neg Bool.false_ne_true]
  exact bind_eq_ok_iff.2 ⟨slots₁, hfree, bind_eq_ok_iff.2 ⟨slots₂, hlive, rfl⟩⟩

/-! ## The image of a segment -/

theorem toNat_lastEngaged (hc : s.slots.size ≤ 65535) (n : Nat) :
    (SegmentImage.of n capacity s).lastEngaged.toNat = s.slots.size := by
  show (UInt16.ofNat s.slots.size).toNat = _
  rw [UInt16.toNat_ofNat']
  omega

theorem inRange_of_slot? (hc : s.slots.size ≤ 65535) (n : Nat) (hx : s.slot? o = some x) :
    (SegmentImage.of n capacity s).inRange o = true := by
  rw [inRange_iff, toNat_lastEngaged hc]
  exact Segment.toNat_le_of_slot? hx

/-- What the image of a usable segment mentions is what stands in its slots. -/
theorem slot?_of_mem_entries (h : s.Usable) (hsize : s.slots.size ≤ capacity)
    (hc : capacity ≤ 65535) {n : Nat} (hmem : (o, x) ∈ (SegmentImage.of n capacity s).entries) :
    s.slot? o = some x := by
  cases x with
  | free next => exact ((h.chain_spec hsize).2.1 _ (mem_entries_free.1 hmem)).1
  | live e => exact (Segment.mem_elements (hsize.trans hc)).1 (mem_entries_live.1 hmem)

/-- The image of a segment with a usable chain fits. -/
theorem fits_of (h : s.Usable) (hsize : s.slots.size ≤ capacity) (hc : capacity ≤ 65535) (n : Nat) :
    (SegmentImage.of n capacity s).Fits capacity := by
  obtain ⟨hnodup, hlinks, hhead, -⟩ := h.chain_spec hsize
  have hc' := hsize.trans hc
  have hlast : (SegmentImage.of n capacity s).lastEngaged.toNat = s.slots.size :=
    toNat_lastEngaged hc' n
  refine ⟨by rw [hlast]; exact hsize, ?_, fun p hp => ?_, fun p hp => ?_, ?_⟩
  · rw [UInt16.le_iff_toNat_le, hlast]
    exact hhead
  · obtain ⟨hslot, hnext⟩ := hlinks p hp
    refine ⟨inRange_of_slot? hc' n hslot, ?_⟩
    rw [UInt16.le_iff_toNat_le, hlast]
    exact hnext
  · exact inRange_of_slot? hc' n ((Segment.mem_elements hc').1 hp)
  · -- a slot is not free and live at once
    rw [entries, List.map_append, List.map_map, List.map_map]
    refine List.nodup_append.2 ⟨hnodup, Segment.nodup_elements hc', fun o ho o' ho' heq => ?_⟩
    subst heq
    obtain ⟨p, hp, rfl⟩ := List.mem_map.1 ho
    obtain ⟨q, hq, heq⟩ := List.mem_map.1 ho'
    have hfree := (hlinks p hp).1
    have hlive := (Segment.mem_elements hc').1 hq
    rw [show q.1 = p.1 from heq, hfree] at hlive
    cases hlive

/-- What a sound segment holds is what its image says. -/
theorem restores_of (h : s.Sound capacity) (hc : capacity ≤ 65535) (n : Nat) :
    (SegmentImage.of n capacity s).Restores s := by
  have hsize := h.size_le.trans hc
  -- the chain and the elements are all of the slots
  have hmem : ∀ o x, s.slot? o = some x → (o, x) ∈ (SegmentImage.of n capacity s).entries := by
    intro o x hx
    cases x with
    | free next => exact mem_entries_free.2 (h.mem_chain hx)
    | live e => exact mem_entries_live.2 ((Segment.mem_elements hsize).2 hx)
  refine ⟨(toNat_lastEngaged hsize n).symm, rfl, h.live_eq.trans s.length_elements.symm,
    fun o x => ⟨fun hx => .inl (hmem o x hx), ?_⟩⟩
  rintro (hin | ⟨hin, hnot, -⟩)
  · exact slot?_of_mem_entries h.usable h.size_le hc hin
  · obtain ⟨h0, hle⟩ := inRange_iff.1 hin
    rw [toNat_lastEngaged hsize] at hle
    have hpos : o.toNat ≠ 0 := fun h => h0 (UInt16.toNat_inj.1 h)
    have hlt : o.toNat - 1 < s.slots.size := by omega
    have hslot : s.slot? o = some s.slots[o.toNat - 1] :=
      Segment.slot?_eq_some_iff.2 ⟨h0, Array.getElem?_eq_getElem hlt⟩
    exact absurd (List.mem_map.2 ⟨_, hmem o _ hslot, rfl⟩) hnot

end SegmentImage

namespace Segment

variable {s : Segment} {o : UInt16} {e : Element} {capacity : Nat}

/-- What comes back of a segment that is written and read. -/
def reread (s : Segment) (capacity : Nat) : Segment :=
  match (SegmentImage.of 0 capacity s).restore capacity with
  | .ok s' => s'
  | .error _ => s

/-- The image of a segment with a usable chain is accepted. -/
theorem Usable.restore_of (h : s.Usable) (hsize : s.slots.size ≤ capacity) (hc : capacity ≤ 65535)
    (n : Nat) : (SegmentImage.of n capacity s).restore capacity = .ok (s.reread capacity) := by
  obtain ⟨s', hs'⟩ := (SegmentImage.fits_of h hsize hc 0).restore
  rw [reread, hs']
  exact hs'

/-- The live slots of a segment with a usable chain come back. -/
theorem Usable.slot?_reread (h : s.Usable) (hsize : s.slots.size ≤ capacity)
    (hc : capacity ≤ 65535) :
    (s.reread capacity).slot? o = some (.live e) ↔ s.slot? o = some (.live e) := by
  rw [(SegmentImage.restore_ok (h.restore_of hsize hc 0)).2.slot_live,
    ← mem_elements (hsize.trans hc)]
  rfl

/-- A sound segment comes back as it is. -/
theorem Sound.reread_eq (h : s.Sound capacity) (hc : capacity ≤ 65535) :
    s.reread capacity = s := by
  have hrestored := SegmentImage.restore_ok (h.usable.restore_of h.size_le hc 0)
  exact (SegmentImage.restores_of h hc 0).unique hrestored.2

end Segment

/-! ## The bytes of an image -/

/-- The image of a segment with a usable chain and with elements as records hold them is read back.
-/
theorem Reader.yields_segment {s : Segment} {capacity n : Nat} (h : s.Usable)
    (hsize : s.slots.size ≤ capacity) (hc : capacity ≤ 65535)
    (he : ∀ p ∈ s.elements, p.2.Formed) :
    segment.Yields (SegmentImage.of n capacity s).toBytes (SegmentImage.of n capacity s) := by
  -- chain and elements are no longer than the segment, so four bytes hold their lengths
  have hfree : (s.chain capacity).length < 256 ^ 4 := by
    have := (h.chain_spec hsize).2.2.2
    omega
  have hlive : s.elements.length < 256 ^ 4 := by
    have hcount : s.slots.countP (·.isLive) ≤ s.slots.size := Array.countP_le_size
    rw [s.length_elements]
    omega
  have hlinks : ∀ p ∈ s.chain capacity,
      Reader.Yields (do return (← half, ← half)) (littleEndian 2 p.1.toNat ++
        littleEndian 2 p.2.toNat) p := fun p _ =>
    Yields.bind (yields_half p.1) (Yields.bind_pure (yields_half p.2) _)
  rw [SegmentImage.toBytes]
  simp only [List.append_assoc]
  refine Yields.bind (yields_half _) (Yields.bind (yields_half _) (Yields.bind (yields_half _) ?_))
  refine Yields.bind (yields_number_of_lt 4 hfree) (Yields.bind (yields_many hlinks) ?_)
  refine Yields.bind (yields_number_of_lt 4 hlive) (Yields.bind_pure (yields_many fun p hp => ?_) _)
  exact yields_element p.1 (he p hp)

end SemanticNet
