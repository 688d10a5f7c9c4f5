import SemanticNet.Proofs.Loading

/-!
# What is loaded is well formed

Whatever bytes a dump has, it is refused as damaged, or the store that is loaded is well formed,
slot by slot (`Store.WellFormed`, `Dump.decode_wellFormed`): no offset leads out of its segment,
what is counted is right, live elements are as records hold them, and contents belong to links.
Neither does putting a segment together look at a slot that is not there
(`SegmentImage.restoreStrict_eq`). What is not established is that free chains go through free slots
and end.
-/

namespace SemanticNet

/-! ## Segments -/

/-- No offset leads out of the segment, and the count of its live slots is right. -/
structure Segment.WellFormed (s : Segment) (capacity : Nat) : Prop where
  size_le : s.slots.size ≤ capacity
  head_le : s.freeHead.toNat ≤ s.slots.size
  next_le : ∀ o n, s.slot? o = some (.free n) → n.toNat ≤ s.slots.size
  live_at : ∀ o e, s.slot? o = some (.live e) → 1 ≤ o.toNat ∧ o.toNat ≤ s.slots.size
  live_eq : s.live = s.slots.countP (·.isLive)

namespace SegmentImage

variable {g : SegmentImage} {s : Segment} {capacity size : Nat}

/-- Whatever the image says, what is restored of it is well formed. -/
theorem wellFormed_of_restore (h : g.restore capacity = .ok s) : s.WellFormed capacity := by
  obtain ⟨hfits, hrestores⟩ := restore_ok h
  have hsize := hrestores.size_eq
  have hle : s.slots.size ≤ 65535 := by
    have := g.lastEngaged.toNat_lt
    omega
  refine ⟨hsize ▸ hfits.last_le, ?_, fun o n ho => ?_, fun o e ho => ?_, ?_⟩
  · rw [hrestores.head, hsize]
    exact UInt16.le_iff_toNat_le.1 hfits.head_le
  · rcases (hrestores.slot o _).1 ho with hmem | ⟨-, -, hzero⟩
    · rw [hsize]
      exact UInt16.le_iff_toNat_le.1 (hfits.free _ (mem_entries_free.1 hmem)).2
    · cases hzero
      exact Nat.zero_le _
  · obtain ⟨h0, hle⟩ := Segment.toNat_le_of_slot? ho
    have : o.toNat ≠ 0 := fun h => h0 (UInt16.toNat_inj.1 h)
    omega
  · -- the elements of the segment are those of the image, in another order
    have hlive : (g.live.map Prod.fst).Nodup := by
      have hnodup := hfits.nodup
      rw [entries, List.map_append, List.map_map, List.map_map] at hnodup
      exact hnodup.of_append_right
    have hperm : s.elements.Perm g.live := by
      refine (List.perm_ext_iff_of_nodup (Segment.nodup_elements hle).of_map hlive.of_map).2 ?_
      intro p
      rw [← hrestores.slot_live, ← Segment.mem_elements hle]
    rw [hrestores.live, ← hperm.length_eq, s.length_elements]

/-! ## Looking at slots -/

/-- As `fill`, but `none` when the offset is not that of a slot. -/
def fillStrict (slots : Partial) (offset : UInt16) (slot : Slot) : ExceptT Failure Option Partial :=
  if 1 ≤ offset.toNat ∧ offset.toNat ≤ slots.size then .mk (some (fill slots offset slot))
  else .mk none

def fillFreeStrict (g : SegmentImage) (slots : Partial) (link : UInt16 × UInt16) :
    ExceptT Failure Option Partial :=
  if g.inRange link.1 && link.2 ≤ g.lastEngaged then fillStrict slots link.1 (.free link.2)
  else throw (.corrupt .freeOffsetRange)

def fillLiveStrict (g : SegmentImage) (slots : Partial) (record : UInt16 × Element) :
    ExceptT Failure Option Partial :=
  if g.inRange record.1 then fillStrict slots record.1 (.live record.2)
  else throw (.corrupt .elementOffsetRange)

/-- As `restore`, but `none` when an offset that is looked at is not that of a slot. -/
def restoreStrict (g : SegmentImage) (capacity : Nat) : ExceptT Failure Option Segment := do
  if capacity < g.lastEngaged.toNat || g.lastEngaged < g.freeHead then
    throw (.corrupt .cursorBeyondCapacity)
  let slots ← g.free.foldlM g.fillFreeStrict (Array.replicate g.lastEngaged.toNat none)
  let slots ← g.live.foldlM g.fillLiveStrict slots
  return {
    slots := slots.map (·.getD (.free 0))
    freeHead := g.freeHead
    live := g.live.length }

theorem size_of_fill {slots slots' : Partial} {o : UInt16} {x : Slot}
    (h : fill slots o x = .ok slots') : slots'.size = slots.size := by
  unfold fill at h
  split at h
  · cases h
    exact Array.size_setIfInBounds
  · cases h

theorem fillStrict_eq {slots : Partial} {o : UInt16} {x : Slot} (hin : g.inRange o = true)
    (hsize : slots.size = g.lastEngaged.toNat) :
    fillStrict slots o x = .mk (some (fill slots o x)) := by
  obtain ⟨h0, hle⟩ := inRange_iff.1 hin
  have hpos : o.toNat ≠ 0 := fun h => h0 (UInt16.toNat_inj.1 h)
  exact if_pos ⟨by omega, by omega⟩

/-- A free slot is in range when it is looked at, and filling it keeps the number of slots. -/
theorem fillFreeStrict_eq {slots : Partial} (hsize : slots.size = g.lastEngaged.toNat)
    (link : UInt16 × UInt16) :
    g.fillFreeStrict slots link = .mk (some (g.fillFree slots link)) ∧
      ∀ slots', g.fillFree slots link = .ok slots' → slots'.size = g.lastEngaged.toNat := by
  rw [fillFreeStrict, fillFree_eq]
  by_cases hin : (g.inRange link.1 && decide (link.2 ≤ g.lastEngaged)) = true
  · rw [if_pos hin, if_pos hin]
    exact ⟨fillStrict_eq (Bool.and_eq_true_iff.1 hin).1 hsize,
      fun slots' h => (size_of_fill h).trans hsize⟩
  · rw [if_neg hin, if_neg hin]
    exact ⟨rfl, fun slots' h => by cases h⟩

/-- A live slot is in range when it is looked at, and filling it keeps the number of slots. -/
theorem fillLiveStrict_eq {slots : Partial} (hsize : slots.size = g.lastEngaged.toNat)
    (record : UInt16 × Element) :
    g.fillLiveStrict slots record = .mk (some (g.fillLive slots record)) ∧
      ∀ slots', g.fillLive slots record = .ok slots' → slots'.size = g.lastEngaged.toNat := by
  rw [fillLiveStrict, fillLive_eq]
  by_cases hin : g.inRange record.1 = true
  · rw [if_pos hin, if_pos hin]
    exact ⟨fillStrict_eq hin hsize, fun slots' h => (size_of_fill h).trans hsize⟩
  · rw [if_neg hin, if_neg hin]
    exact ⟨rfl, fun slots' h => by cases h⟩

/-- Steps that look at slots that are there do so one after the other. -/
theorem foldlM_strict_eq {β : Type} {strict : Partial → β → ExceptT Failure Option Partial}
    {step : Partial → β → Except Failure Partial}
    (h : ∀ slots, slots.size = size → ∀ b, strict slots b = .mk (some (step slots b)) ∧
      ∀ slots', step slots b = .ok slots' → slots'.size = size)
    (bs : List β) {slots : Partial} (hsize : slots.size = size) :
    bs.foldlM strict slots = .mk (some (bs.foldlM step slots)) ∧
      ∀ slots', bs.foldlM step slots = .ok slots' → slots'.size = size := by
  induction bs generalizing slots with
  | nil =>
    refine ⟨rfl, fun slots' hrun => ?_⟩
    obtain rfl := Except.ok.inj hrun
    exact hsize
  | cons b bs ih =>
    obtain ⟨hstrict, hstep⟩ := h slots hsize b
    rw [List.foldlM_cons, List.foldlM_cons, hstrict]
    cases hb : step slots b with
    | error f => exact ⟨rfl, fun slots' hrun => by cases hrun⟩
    | ok slots₁ => exact ih (hstep slots₁ hb)

/-- Putting a segment together never looks at a slot that is not there, whatever the image says. -/
theorem restoreStrict_eq (g : SegmentImage) (capacity : Nat) :
    g.restoreStrict capacity = .mk (some (g.restore capacity)) := by
  unfold restoreStrict restore
  split
  · rfl
  · obtain ⟨hstrict, hsize⟩ := foldlM_strict_eq (fun slots h => g.fillFreeStrict_eq h) g.free
      (Array.size_replicate (n := g.lastEngaged.toNat) (v := none))
    rw [hstrict]
    cases hfree : g.free.foldlM g.fillFree (Array.replicate g.lastEngaged.toNat none) with
    | error f => rfl
    | ok slots =>
      obtain ⟨hstrict', -⟩ := foldlM_strict_eq (fun slots h => g.fillLiveStrict_eq h) g.live
        (hsize slots hfree)
      show g.live.foldlM g.fillLiveStrict slots >>= _
        = ExceptT.mk (some (g.live.foldlM _ slots >>= _))
      rw [hstrict']
      cases g.live.foldlM g.fillLive slots <;> rfl

end SegmentImage

/-! ## Elements -/

/-- The elements of a segment that is read are as records hold them. -/
theorem Reader.formed_of_segment {g : SegmentImage} {bytes rest : Bytes}
    (h : segment bytes = .ok (g, rest)) : ∀ p ∈ g.live, p.2.Formed := by
  obtain ⟨number, bytes, -, h⟩ := bind_apply_eq_ok h
  obtain ⟨lastEngaged, bytes, -, h⟩ := bind_apply_eq_ok h
  obtain ⟨freeHead, bytes, -, h⟩ := bind_apply_eq_ok h
  obtain ⟨n, bytes, -, h⟩ := bind_apply_eq_ok h
  obtain ⟨free, bytes, -, h⟩ := bind_apply_eq_ok h
  obtain ⟨n, bytes, -, h⟩ := bind_apply_eq_ok h
  obtain ⟨live, bytes, hlive, h⟩ := bind_apply_eq_ok h
  cases h
  intro p hp
  obtain ⟨front, back, hread⟩ := exists_of_many hlive p hp
  exact formed_of_element hread

/-! ## What is counted -/

/-- Whether a slot holds an element of a kind. -/
def Slot.isOf (k : Kind) (x : Slot) : Bool := x.element?.any fun e => e.type.sort = k

theorem Segment.countP_elements (s : Segment) (k : Kind) :
    s.elements.countP (fun p => p.2.type.sort = k) = s.slots.countP (Slot.isOf k) := by
  have hmap := List.countP_map (p := Slot.isOf k) (f := Prod.fst) (l := s.slots.toList.zipIdx 1)
  rw [List.zipIdx_map_fst] at hmap
  rw [elements, List.countP_filterMap, ← Array.countP_toList, hmap]
  refine List.countP_congr fun p _ => ?_
  simp only [Function.comp_apply, Slot.isOf]
  cases p.1.element? <;> simp

namespace Arena

variable {t : Arena}

/-- A live element stands in a slot of a segment. -/
theorem exists_slot?_of_find? {a : Address} {e : Element} (h : t.find? a = some e) :
    ∃ g, t.segments[a.segment.toNat - 1]? = some g ∧ g.slot? a.offset = some (.live e) := by
  rw [find?_eq_some_iff, slot?] at h
  split at h
  · cases h
  · exact Option.bind_eq_some_iff.1 h

/-- The number of live slots that hold an element of a kind. -/
def liveOf (t : Arena) (k : Kind) : Nat :=
  (t.segments.toList.map fun s => s.slots.countP (Slot.isOf k)).sum

/-- The elements of a kind are as many as its live slots. -/
theorem countP_elements (t : Arena) (k : Kind) :
    t.elements.countP (fun p => p.2.type.sort = k) = t.liveOf k := by
  have hcomp : (t.segments.toList.zipIdx 1).map (List.countP (fun p => p.2.type.sort = k) ∘
      fun p : Segment × Nat => p.1.elements.map fun q => ((⟨.ofNat p.2, q.1⟩ : Address), q.2))
        = ((t.segments.toList.zipIdx 1).map Prod.fst).map fun s =>
          s.slots.countP (Slot.isOf k) := by
    rw [List.map_map]
    refine List.map_congr_left fun p _ => ?_
    rw [Function.comp_apply, Function.comp_apply, List.countP_map, ← Segment.countP_elements]
    rfl
  rw [elements, List.countP_flatMap, liveOf]
  exact (congrArg List.sum hcomp).trans (by rw [List.zipIdx_map_fst])

/-- There are fewer elements than addresses. -/
theorem Addressable.length_elements_lt (h : t.Addressable) : t.elements.length < 2 ^ 32 := by
  have hnodup : (t.elements.map Prod.fst).Nodup := by
    refine List.pairwise_map.2 (h.pairwise_elements.imp fun hlt heq => ?_)
    rw [heq] at hlt
    exact Nat.lt_irrefl _ hlt
  have hne : ∀ a ∈ t.elements.map Prod.fst, a ≠ .empty := by
    intro a ha
    obtain ⟨p, hp, rfl⟩ := List.mem_map.1 ha
    exact ne_empty_of_find? (h.mem_elements.1 hp)
  have hlt := length_lt_of_nodup hnodup hne
  rwa [List.length_map] at hlt

end Arena

namespace Census

variable {c : Census} {k l : Kind} {ks : List Kind}

theorem of_add : (c.add l).of k = if l = k then c.of k + 1 else c.of k := by
  cases l <;> cases k <;> rfl

/-- A census counts the kinds, up to the size of its numbers. -/
theorem toNat_of_tally : ((tally ks).of k).toNat = ks.count k % 2 ^ 64 := by
  induction ks with
  | nil => cases k <;> rfl
  | cons l ks ih =>
    rw [tally_cons, of_add, List.count_cons]
    by_cases hl : l = k
    · subst hl
      rw [if_pos rfl, UInt64.toNat_add, ih, beq_self_eq_true, if_pos rfl]
      simp
    · simpa [hl] using ih

end Census

/-- The kinds in the list of all kinds are those of the live slots. -/
theorem Arena.count_kinds (t : Arena) (k : Kind) :
    (t.kinds.map Prod.snd).count k = t.liveOf k := by
  rw [← countP_elements, kinds, List.map_map, List.count, List.countP_map]
  refine List.countP_congr fun p _ => ?_
  simp

theorem Arena.liveOf_le (t : Arena) (k : Kind) : t.liveOf k ≤ t.elements.length := by
  rw [← countP_elements]
  exact List.countP_le_length

/-- The tally of the kinds says how many live slots hold an element of each. -/
theorem Arena.Addressable.toNat_tally {t : Arena} (h : t.Addressable) (k : Kind) :
    ((Census.tally (t.kinds.map Prod.snd)).of k).toNat = t.liveOf k := by
  have hle := t.liveOf_le k
  have hlt := h.length_elements_lt
  rw [Census.toNat_of_tally, t.count_kinds]
  omega

/-! ## Dumps -/

/-- No look-up leads out of a segment, live elements are as records hold them, contents belong to
live links, and the counts are right. -/
structure Store.WellFormed (s : Store) : Prop where
  segment : ∀ (i : Nat) (g : Segment), s.arena.segments[i]? = some g → g.WellFormed s.arena.capacity
  element : ∀ a e, s.arena.find? a = some e → e.Formed
  content : ∀ a, (s.contents.get? a).isSome → s.arena.isLinkAt a = true
  census : ∀ k, (s.census.of k).toNat = s.arena.liveOf k

namespace Dump

open Reader

variable {t t' : Arena} {bytes rest : Bytes} {settings : Settings} {s : Store} {y : Summary}
  {check : Bytes → UInt32}

/-- Reading segments adds so many segments to those that are there and changes nothing else. What
holds of those and of each one that is restored holds of all. -/
theorem segments_of_readSegments {P : Segment → Prop} {n : Nat}
    (h : readSegments t n bytes = .ok (t', rest))
    (ht : ∀ (i : Nat) (g : Segment), t.segments[i]? = some g → P g)
    (hP : ∀ image g front back, segment front = .ok (image, back) →
      image.restore t.capacity = .ok g → P g) :
    t' = { t with segments := t'.segments } ∧ t'.segments.size = t.segments.size + n ∧
      ∀ (i : Nat) (g : Segment), t'.segments[i]? = some g → P g := by
  induction n generalizing t bytes with
  | zero =>
    cases h
    exact ⟨rfl, rfl, ht⟩
  | succ n ih =>
    obtain ⟨image, bytes₁, himage, h⟩ := bind_apply_eq_ok h
    obtain ⟨g, bytes₂, hg, h⟩ := bind_apply_eq_ok h
    have hrestore : image.restore t.capacity = .ok g := by
      obtain ⟨g', hg', hrest⟩ := bind_eq_ok_iff.1 hg
      obtain ⟨rfl, -⟩ := Prod.ext_iff.1 (Except.ok.inj hrest)
      exact hg'
    have hpush : ∀ (i : Nat) (g' : Segment), (t.segments.push g)[i]? = some g' → P g' := by
      intro i g' hg'
      rw [Array.getElem?_push] at hg'
      split at hg'
      · cases hg'
        exact hP image g bytes bytes₁ himage hrestore
      · exact ht i g' hg'
    split at h
    · cases h
    · obtain ⟨hsame, hsize, hall⟩ := ih (t := { t with segments := t.segments.push g }) h hpush hP
      refine ⟨hsame, ?_, hall⟩
      simp only [Array.size_push] at hsize
      omega

theorem refreshHint_eq (t : Arena) : t.refreshHint = { t with hint := t.refreshHint.hint } := by
  rw [Arena.refreshHint]
  split <;> rfl

/-- The arena of a dump keeps its limits, and its segments are well formed and hold elements as
records do. -/
theorem arena_of_decode (h : decode check settings bytes = .ok (s, y)) :
    s.arena.segments.size ≤ s.arena.maxSegments ∧ s.arena.maxSegments ≤ 65535 ∧
      0 < s.arena.capacity ∧ s.arena.capacity ≤ 65535 ∧
      ∀ (i : Nat) (g : Segment), s.arena.segments[i]? = some g →
        g.WellFormed s.arena.capacity ∧ ∀ o e, g.slot? o = some (.live e) → e.Formed := by
  obtain ⟨capacity, count, t, contents, m, bytes₁, bytes₂, bytes₃, bytes₄, hsegments, -, rfl⟩ :=
    sections_of_decode h
  have hrestored : ∀ image g front back, segment front = .ok (image, back) →
      image.restore (max capacity.toNat 1) = .ok g →
      g.WellFormed (max capacity.toNat 1) ∧ ∀ o e, g.slot? o = some (.live e) → e.Formed := by
    intro image g front back himage hrestore
    refine ⟨SegmentImage.wellFormed_of_restore hrestore, fun o e ho => ?_⟩
    exact formed_of_segment himage _ ((SegmentImage.restore_ok hrestore).2.slot_live.1 ho)
  obtain ⟨hsame, hsize, hall⟩ := segments_of_readSegments hsegments
    (fun i g hg => by simp [Arena.ofLimits] at hg) hrestored
  have hlimits : t.refreshHint.segments = t.segments ∧
      t.refreshHint.capacity = max capacity.toNat 1 ∧
      t.refreshHint.maxSegments = max (max settings.maxSegments count).toNat 1 := by
    rw [refreshHint_eq, hsame]
    exact ⟨rfl, rfl, rfl⟩
  obtain ⟨hsegs, hcap, hmax⟩ := hlimits
  have hnone : (Arena.ofLimits (max settings.maxSegments count) capacity).segments.size = 0 := rfl
  have hcount := count.toNat_lt
  have hsettings := settings.maxSegments.toNat_lt
  have hcapacity := capacity.toNat_lt
  rw [toNat_max] at hmax
  simp only [Store.recount, hsegs, hcap, hmax]
  exact ⟨by omega, by omega, by omega, by omega, hall⟩

/-- The contents of a dump belong to links, and they fit. -/
theorem contents_of_decode (h : decode check settings bytes = .ok (s, y)) :
    ∀ a content, s.contents.get? a = some content →
      s.arena.isLinkAt a = true ∧ content.length < 2 ^ 32 := by
  obtain ⟨capacity, count, t, contents, m, bytes₁, bytes₂, bytes₃, bytes₄, -, hcontents, rfl⟩ :=
    sections_of_decode h
  intro a content hcontent
  show t.refreshHint.isLinkAt a = true ∧ _
  rw [Arena.isLinkAt, find?_refreshHint]
  exact fits_of_readContents hcontents a content hcontent

/-- Loading ends with a census from scratch. -/
theorem census_of_decode (h : decode check settings bytes = .ok (s, y)) :
    s.census = Census.tally (s.arena.kinds.map Prod.snd) := by
  obtain ⟨capacity, count, t, contents, m, bytes₁, bytes₂, bytes₃, bytes₄, -, -, rfl⟩ :=
    sections_of_decode h
  exact Store.census_recount _

theorem wellFormed_of_decode (h : decode check settings bytes = .ok (s, y)) : s.WellFormed := by
  obtain ⟨hsize, hmax, -, hcap, hsegment⟩ := arena_of_decode h
  have haddressable : s.arena.Addressable :=
    ⟨hsize.trans hmax, fun i g hg => (hsegment i g hg).1.size_le.trans hcap⟩
  refine ⟨fun i g hg => (hsegment i g hg).1, fun a e he => ?_, fun a ha => ?_, fun k => ?_⟩
  · obtain ⟨g, hg, hslot⟩ := Arena.exists_slot?_of_find? he
    exact (hsegment _ g hg).2 _ e hslot
  · obtain ⟨content, hcontent⟩ := Option.isSome_iff_exists.1 ha
    exact (contents_of_decode h a content hcontent).1
  · rw [census_of_decode h, haddressable.toNat_tally]

/-- Whatever bytes a dump has, it is refused as damaged or the store that is loaded is well formed,
and no segment is put together by way of a slot that is not there. -/
theorem decode_wellFormed (check : Bytes → UInt32) (settings : Settings) (bytes : Bytes) :
    ((∃ d, decode check settings bytes = .error (.corrupt d)) ∨
      ∃ s y, decode check settings bytes = .ok (s, y) ∧ s.WellFormed) ∧
    ∀ (g : SegmentImage) (capacity : Nat),
      g.restoreStrict capacity = .mk (some (g.restore capacity)) := by
  refine ⟨?_, SegmentImage.restoreStrict_eq⟩
  rcases (onlyDamage_decode check settings bytes).cases with ⟨⟨s, y⟩, hload⟩ | hdamage
  · exact .inr ⟨s, y, hload, wellFormed_of_decode hload⟩
  · exact .inl hdamage

end Dump

end SemanticNet
