import SemanticNet.Proofs.Admission
import SemanticNet.Proofs.Committing

/-!
# Regular stores

Whatever its rings and free chains are like, an arena is regular when it keeps its limits and every
live element has a known type (`Arena.Regular`). A dump that is loaded may be damaged; the store
that comes of it is regular nonetheless, and so is all that operations make of it (`Obtained`,
`Obtained.regular`).
-/

namespace SemanticNet

/-! ## Segments -/

namespace Segment

variable {s : Segment} {capacity : Nat} {e : Element}

/-- A segment keeps its capacity, and its live elements have known types. -/
structure Regular (s : Segment) (capacity : Nat) : Prop where
  size_le : s.slots.size ≤ capacity
  typed : ∀ e, Slot.live e ∈ s.slots → e.type.isUnknown = false

theorem regular_empty : ({} : Segment).Regular capacity where
  size_le := Nat.zero_le _
  typed e he := by simp at he

theorem Regular.occupy (h : s.Regular capacity) (he : e.type.isUnknown = false) {v : Vacancy}
    (hv : ∀ o, v = .fresh o → s.slots.size < capacity) : (s.occupy e v).Regular capacity := by
  cases v with
  | reused offset next =>
    constructor
    · simpa [Segment.occupy] using h.size_le
    · intro e' he'
      rcases Array.mem_or_eq_of_mem_setIfInBounds he' with hold | hnew
      · exact h.typed e' hold
      · cases hnew
        exact he
  | fresh offset =>
    constructor
    · have := hv offset rfl
      simp only [Segment.occupy, Array.size_push]
      omega
    · intro e' he'
      rcases Array.mem_push.1 he' with hold | hnew
      · exact h.typed e' hold
      · cases hnew
        exact he

theorem Regular.free (h : s.Regular capacity) (offset : UInt16) :
    (s.free offset).Regular capacity := by
  constructor
  · simpa [Segment.free] using h.size_le
  · intro e' he'
    rcases Array.mem_or_eq_of_mem_setIfInBounds he' with hold | hnew
    · exact h.typed e' hold
    · cases hnew

/-- A change that leaves known types known may be made in any slot. -/
theorem Regular.modify (h : s.Regular capacity) (i : Nat) {f : Element → Element}
    (hf : ∀ e, e.type.isUnknown = false → (f e).type.isUnknown = false) :
    Regular { s with slots := s.slots.modify i (Slot.update f) } capacity := by
  constructor
  · simpa using h.size_le
  · intro e' he'
    obtain ⟨j, hj⟩ := Array.mem_iff_getElem?.1 he'
    rw [Array.getElem?_modify] at hj
    by_cases hij : i = j
    · rw [if_pos hij, Option.map_eq_some_iff] at hj
      obtain ⟨slot, hslot, hupdate⟩ := hj
      cases slot with
      | free next => cases hupdate
      | live e =>
        cases hupdate
        exact hf e (h.typed e (Array.mem_of_getElem? hslot))
    · rw [if_neg hij] at hj
      exact h.typed e' (Array.mem_of_getElem? hj)

/-- A segment may be judged by what is found at its offsets. -/
theorem regular_of_slots (hsize : s.slots.size ≤ capacity) (hc : capacity ≤ 65535)
    (he : ∀ o e, s.slot? o = some (.live e) → e.type.isUnknown = false) : s.Regular capacity where
  size_le := hsize
  typed e hmem := by
    obtain ⟨i, hi⟩ := Array.mem_iff_getElem?.1 hmem
    have hlt := (Array.getElem?_eq_some_iff.1 hi).1
    obtain ⟨o, h0, hnat⟩ := exists_offset (i := i) (by omega)
    refine he o e (slot?_eq_some_iff.2 ⟨h0, ?_⟩)
    rw [hnat, Nat.add_sub_cancel]
    exact hi

/-- A slot is fresh only where the segment is not full. -/
theorem size_lt_of_fresh {offset : UInt16}
    (h : s.vacancy? capacity = .ok (some (.fresh offset))) : s.slots.size < capacity := by
  unfold vacancy? at h
  by_cases hhead : s.freeHead ≠ 0
  · rw [if_pos hhead] at h
    rcases hslot : s.slot? s.freeHead with - | (next | e) <;> simp [hslot] at h
  · rw [if_neg hhead] at h
    by_cases hlt : s.slots.size < capacity
    · exact hlt
    · rw [if_neg hlt] at h
      simp at h

end Segment

/-! ## Arenas -/

namespace Arena

variable {t : Arena} {a : Address} {e : Element} {i : Nat} {f : Element → Element}

/-- The limits of an arena hold and its segments are regular. -/
structure Regular (t : Arena) : Prop where
  size_le : t.segments.size ≤ t.maxSegments
  maxSegments_le : t.maxSegments ≤ 65535
  capacity_pos : 0 < t.capacity
  capacity_le : t.capacity ≤ 65535
  segment : ∀ (i : Nat) (s : Segment), t.segments[i]? = some s → s.Regular t.capacity

theorem Regular.addressable (h : t.Regular) : t.Addressable where
  size_le := Nat.le_trans h.size_le h.maxSegments_le
  slots_le i s hs := Nat.le_trans (h.segment i s hs).size_le h.capacity_le

theorem Regular.typed (h : t.Regular) (he : t.find? a = some e) : e.type.isUnknown = false := by
  obtain ⟨s, hs, hslot⟩ := exists_slot?_of_find? he
  exact (h.segment _ s hs).typed e (Array.mem_of_getElem? (Segment.slot?_eq_some_iff.1 hslot).2)

theorem regular_ofLimits (m n : UInt16) : (ofLimits m n).Regular := by
  have h := tidy_ofLimits m n
  refine ⟨h.size_le, h.maxSegments_le, h.capacity_pos, h.capacity_le, ?_⟩
  intro i s hs
  have : (#[] : Array Segment)[i]? = some s := hs
  simp at this

/-- One segment of a regular arena may be changed to a regular one. -/
theorem Regular.modify (h : t.Regular) (i hint : Nat) {g : Segment → Segment}
    (hg : ∀ s, t.segments[i]? = some s → (g s).Regular t.capacity) :
    Regular { t with segments := t.segments.modify i g, hint } := by
  refine ⟨?_, h.maxSegments_le, h.capacity_pos, h.capacity_le, ?_⟩
  · simpa using h.size_le
  · intro j s hs
    rw [Array.getElem?_modify] at hs
    by_cases hij : i = j
    · subst hij
      rw [if_pos rfl, Option.map_eq_some_iff] at hs
      obtain ⟨s', hs', rfl⟩ := hs
      exact hg s' hs'
    · rw [if_neg hij] at hs
      exact h.segment j s hs

theorem Regular.update (h : t.Regular) (a : Address)
    (hf : ∀ e, e.type.isUnknown = false → (f e).type.isUnknown = false) :
    (t.update a f).Regular := by
  unfold Arena.update
  split
  · exact h
  · exact h.modify _ t.hint fun s hs => (h.segment _ s hs).modify _ hf

theorem Regular.grow (h : t.Regular) (hlt : t.segments.size < t.maxSegments) :
    t.grow.Regular := by
  refine ⟨?_, h.maxSegments_le, h.capacity_pos, h.capacity_le, ?_⟩
  · simpa [Arena.grow] using Nat.succ_le_of_lt hlt
  · intro i s hs
    have hs : (t.segments.push {})[i]? = some s := hs
    rw [Array.getElem?_push] at hs
    split at hs
    · cases hs
      exact Segment.regular_empty
    · exact h.segment i s hs

theorem Regular.allocate (h : t.Regular) (he : e.type.isUnknown = false) :
    ((Arena.allocate e).on t).2.Regular := by
  rcases allocate_cases h.capacity_le e with ⟨i, s, v, hs, hv, hrun⟩ | ⟨-, hlt, hrun⟩ |
    ⟨-, -, hrun⟩ | ⟨-, hrun⟩
  · rw [hrun]
    refine h.modify i i fun s' hs' => ?_
    obtain rfl : s = s' := Option.some.inj (hs.symm.trans hs')
    refine (h.segment i s hs).occupy he fun o ho => ?_
    subst ho
    exact Segment.size_lt_of_fresh hv
  · rw [hrun]
    refine (h.grow hlt).modify _ _ fun s hs => ?_
    refine ((h.grow hlt).segment _ s hs).occupy he fun o _ => ?_
    obtain rfl : {} = s := Option.some.inj ((segment?_grow h.capacity_pos).1.symm.trans hs)
    exact h.capacity_pos
  · rw [hrun]
    exact h
  · rw [hrun]
    exact h

theorem Regular.free (h : t.Regular) (a : Address) : ((Arena.free a).on t).2.Regular := by
  simp only [Arena.free, Step.on_bind, Step.on_get]
  split
  · exact h.modify _ _ fun s hs => (h.segment _ s hs).free a.offset
  · exact h

/-- To be regular is a relation of arenas with themselves that blind changes respect. -/
theorem aligned_regular : Aligned fun t t' => t' = t ∧ t.Regular where
  outline? t t' a h := by rw [h.1]
  engaged t t' h := by rw [h.1]
  updateBlind t t' a f hf h := by
    refine ⟨by rw [h.1], h.2.update a fun e he => ?_⟩
    rw [hf.type_eq]
    exact he

theorem keeps_allocate (he : e.type.isUnknown = false) :
    Step.Respects (fun t t' => t' = t ∧ t.Regular) (Arena.allocate e) :=
  Step.respects_iff_keeps.2 fun _ h => h.allocate he

theorem keeps_free (a : Address) :
    Step.Respects (fun t t' => t' = t ∧ t.Regular) (Arena.free a) :=
  Step.respects_iff_keeps.2 fun _ h => h.free a

end Arena

/-! ## Operations -/

namespace Store

variable {s : Store} {a : Address} {e : Element} {m type : ElementType}

/-- The arena of a store is regular. -/
def Regular (s : Store) : Prop := s.arena.Regular

theorem keeps_of_respects {α : Type} {x : Step Store α}
    (h : Step.Respects (Arena.Lockstep.OfStores fun t t' => t' = t ∧ t.Regular) x) :
    Step.Keeps Regular x := fun s hs => (h s s ⟨rfl, hs⟩).2.2

theorem keeps_alter {f : Element → Element}
    (hf : ∀ e, e.type.isUnknown = false → (f e).type.isUnknown = false) :
    Step.Keeps Regular (onArena (Arena.alter a f)) := by
  have hkeeps : Step.Keeps Arena.Regular (Arena.alter a f) :=
    Arena.keeps_alter fun _ ht => ht.update a hf
  exact fun s hs => hkeeps s.arena hs

/-- Narrowing leaves a known type known. -/
theorem Regular.known_of_narrow? (h : s.Regular) (he : s.arena.find? a = some e)
    (hm : e.type.narrow? type = some m) : m.isUnknown = false := by
  rw [(ElementType.narrow?_eq_some_iff.1 hm).1]
  exact ElementType.isUnknown_or (Arena.Regular.typed h he)

theorem keeps_narrow (a : Address) (type : ElementType) : Step.Keeps Regular (narrow a type) := by
  intro s hs
  unfold narrow
  rcases Step.ask_bind_cases (·.narrowed a type)
    (fun m => onArena (Arena.alter a ({ · with type := m }))) s with ⟨m, hm, hrun⟩ | ⟨f, hrun⟩
  · obtain ⟨e, he, hnarrow⟩ := narrowed_ok_iff.1 hm
    rw [hrun]
    exact keeps_alter (fun _ _ => hs.known_of_narrow? he hnarrow) s hs
  · rw [hrun]
    exact hs

theorem keeps_setAccess (a : Address) (access : Access) :
    Step.Keeps Regular (setAccess a access) := keeps_alter fun _ he => he

theorem keeps_setContent (a : Address) (bytes : Bytes) :
    Step.Keeps Regular (setContent a bytes) := by
  intro s hs
  unfold setContent
  rcases Step.ask_bind_cases (·.requireLink a)
    (fun _ => Step.change (changeContents (·.set a bytes))) s with ⟨u, -, hrun⟩ | ⟨f, hrun⟩
  · rw [hrun]
    exact hs
  · rw [hrun]
    exact hs

end Store

/-- A change sets no unknown type. -/
def Change.Known : Change → Prop
  | .setType _ m => m.isUnknown = false
  | .setAccess _ _ | .setContent _ _ => True

namespace Store

variable {s : Store} {a : Address} {m : ElementType} {ks : List Change}

theorem keeps_apply {k : Change} (hk : k.Known) : Step.Keeps Regular (apply k) := by
  cases k with
  | setType a m => exact keeps_alter fun _ _ => hk
  | setAccess a access => exact keeps_setAccess a access
  | setContent a bytes => exact keeps_setContent a bytes

theorem keeps_applyAll (hks : ∀ k ∈ ks, k.Known) : Step.Keeps Regular (applyAll ks) := by
  induction ks with
  | nil => exact fun _ h => h
  | cons k ks ih =>
    have hrest := ih fun l hl => hks l (List.mem_cons_of_mem k hl)
    exact (keeps_apply (hks k List.mem_cons_self)).bind fun _ => hrest

theorem setType_of_planRevisions {rs : List (Address × Revision)}
    (hks : s.planRevisions rs = .ok ks) (hk : .setType a m ∈ ks) :
    ∃ e type, s.arena.find? a = some e ∧ e.type.narrow? type = some m := by
  induction rs generalizing ks with
  | nil =>
    cases hks
    cases hk
  | cons p rs ih =>
    obtain ⟨front, back, hfront, hback, rfl⟩ := planRevisions_cons_ok_iff.1 hks
    obtain ⟨e, he, -, rfl⟩ := planRevision_ok_iff.1 hfront
    rcases List.mem_append.1 hk with hk | hk
    · rcases List.mem_append.1 hk with hk | hk
      · obtain ⟨m', hm', heq⟩ := List.mem_map.1 hk
        obtain ⟨rfl, rfl⟩ : p.1 = a ∧ m' = m := by simpa using heq
        obtain ⟨type, -, hnarrow⟩ := Option.bind_eq_some_iff.1 (Option.mem_toList.1 hm')
        exact ⟨e, type, he, hnarrow⟩
      · obtain ⟨access, -, heq⟩ := List.mem_map.1 hk
        cases heq
    · exact ih hback hk

/-- A plan sets a type only where an element is narrowed to it. -/
theorem setType_of_plan {b : Staging} (hks : s.plan b = .ok ks) (hk : .setType a m ∈ ks) :
    ∃ e type, s.arena.find? a = some e ∧ e.type.narrow? type = some m := by
  obtain ⟨front, hfront, hrest⟩ := bind_eq_ok_iff.1 hks
  obtain ⟨back, hback, heq⟩ := bind_eq_ok_iff.1 hrest
  cases heq
  rcases List.mem_append.1 hk with hk | hk
  · exact setType_of_planRevisions hfront hk
  · obtain ⟨-, rfl⟩ := planContents_ok_iff.1 hback
    obtain ⟨p, -, heq⟩ := List.mem_map.1 hk
    cases heq

theorem Regular.known_of_plan (h : s.Regular) {b : Staging} (hks : s.plan b = .ok ks) :
    ∀ k ∈ ks, k.Known := by
  intro k hk
  cases k with
  | setType a m =>
    obtain ⟨e, type, he, hm⟩ := setType_of_plan hks hk
    exact h.known_of_narrow? he hm
  | setAccess a access => trivial
  | setContent a bytes => trivial

end Store

theorem Action.keeps_regular (k : Action) : Step.Keeps Store.Regular k.run := by
  have haligned := Arena.aligned_regular
  have hallocate := fun (e : Element) (he : e.type.isUnknown = false) => Arena.keeps_allocate he
  cases k with
  | addNode type access =>
    exact (Store.keeps_of_respects (Arena.Aligned.addNode hallocate type access)).map _
  | addLink type access =>
    exact (Store.keeps_of_respects (Arena.Aligned.addLink hallocate type access)).map _
  | connect type source target access =>
    exact (Store.keeps_of_respects (haligned.connect hallocate type source target access)).map _
  | erase a => exact (Store.keeps_of_respects (haligned.erase Arena.keeps_free a)).map _
  | narrow a type => exact (Store.keeps_narrow a type).map _
  | setAccess a access => exact (Store.keeps_setAccess a access).map _
  | setContent a bytes => exact (Store.keeps_setContent a bytes).map _
  | commit x =>
    have hcommit := Transaction.keeps_commit (fun s _ _ hs hplan =>
      Store.keeps_applyAll (hs.known_of_plan hplan) s hs) x
    exact hcommit.map _

/-! ## Loading -/

/-- A well-formed segment whose elements are as records hold them is regular. -/
theorem Segment.WellFormed.regular {s : Segment} {capacity : Nat} (h : s.WellFormed capacity)
    (hc : capacity ≤ 65535) (he : ∀ o e, s.slot? o = some (.live e) → e.Formed) :
    s.Regular capacity :=
  regular_of_slots h.size_le hc fun o e ho => (he o e ho).known

/-- What is loaded is regular, from whatever dump. -/
theorem Dump.regular_of_decode {check : Bytes → UInt32} {settings : Settings} {bytes : Bytes}
    {s : Store} {y : Summary} (h : decode check settings bytes = .ok (s, y)) : s.Regular := by
  obtain ⟨hsize, hmax, hpos, hcap, hsegment⟩ := arena_of_decode h
  exact ⟨hsize, hmax, hpos, hcap, fun i g hg =>
    (hsegment i g hg).1.regular hcap (hsegment i g hg).2⟩

/-- The stores that operations reach from a new one, or from one that was loaded from any dump that
is accepted. Metrics may be counted at any time. -/
inductive Obtained : Store → Prop where
  | fresh (c : Settings) : Obtained (.ofSettings c)
  | loaded {s : Store} {y : Dump.Summary} (check : Bytes → UInt32) (c : Settings) (bytes : Bytes)
      (h : Dump.decode check c bytes = .ok (s, y)) : Obtained s
  | act {s : Store} (k : Action) (h : Obtained s) : Obtained (k.run.on s).2
  | counted {s : Store} (m : Option Metrics) (h : Obtained s) : Obtained { s with metrics := m }

theorem Obtained.regular {s : Store} (h : Obtained s) : s.Regular := by
  induction h with
  | fresh c => exact Arena.regular_ofLimits _ _
  | loaded check c bytes h => exact Dump.regular_of_decode h
  | act k _ ih => exact k.keeps_regular _ ih
  | counted m _ ih => exact ih

end SemanticNet
