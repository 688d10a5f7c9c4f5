import SemanticNet.Proofs.Becoming
import SemanticNet.Proofs.Committing

/-!
# Arenas with revised elements

An arena whose elements are revised goes along with the arena as it was: it hands out the same slots
as long as nothing waits for an address that is not live (`Arena.Awaited`), it frees the same slots,
and it is erased from in the same order (`Arena.Revised`).
-/

namespace SemanticNet

/-! ## Revised elements -/

namespace Element

variable {e : Element} {r : Revision} {f : Element → Element}

/-- Revising keeps the mould of the element. -/
def KeepsMould (e : Element) (r : Revision) : Prop := (e.revised r).type.mould = e.type.mould

theorem keepsMould_of_known (h : e.type.kind.isUnknown = false) : e.KeepsMould r := by
  rw [KeepsMould, revised]
  cases hm : r.type.bind e.type.narrow? with
  | none => rfl
  | some m =>
    obtain ⟨m', -, hnarrow⟩ := Option.bind_eq_some_iff.1 hm
    exact ElementType.mould_of_narrow? hnarrow h

theorem KeepsMould.outline_revised (h : e.KeepsMould r) : (e.revised r).outline = e.outline :=
  outline_retint h

theorem Blind.keepsMould_iff (h : Blind f) : (f e).KeepsMould r ↔ e.KeepsMould r := by
  rw [KeepsMould, KeepsMould, revised, revised, h.type_eq]

/-- A blind change may come before a revision or after it. -/
theorem Blind.apply_revised (h : Blind f) (hr : e.KeepsMould r) :
    f (e.revised r) = (f e).revised r := by
  have hcommute := h.retint e (e.revised r).type (e.revised r).access hr
  rw [show e.retint (e.revised r).type (e.revised r).access = e.revised r from rfl] at hcommute
  rw [hcommute, revised, revised, h.type_eq, h.access_eq]
  rfl

@[simp] theorem revised_nothing : e.revised {} = e := rfl

/-- The type that the revision names, if it names one, comes of narrowing that of the element. -/
def NarrowsAs (e : Element) (r : Revision) : Prop := ∀ m ∈ r.type, e.type.narrow? m = some m

theorem narrowsAs_nothing : e.NarrowsAs {} := fun _ hm => nomatch hm

/-- Revising leaves the type that the revision names. -/
theorem NarrowsAs.type_revised (h : e.NarrowsAs r) : (e.revised r).type = r.type.getD e.type := by
  rw [revised]
  cases hr : r.type with
  | none => rfl
  | some m => simp [h m hr]

/-- What comes of narrowing twice comes of narrowing once. -/
theorem NarrowsAs.narrowed {type m : ElementType} (h : e.NarrowsAs r)
    (hm : (r.type.getD e.type).narrow? type = some m) : e.type.narrow? m = some m := by
  cases hr : r.type with
  | none =>
    rw [hr] at hm
    exact ElementType.narrow?_self hm
  | some T =>
    rw [hr] at hm
    exact ElementType.narrow?_trans (h T hr) hm

end Element

namespace Arena

variable {t t' : Arena} {a b : Address} {e : Element} {g : Address → Element → Element}
  {rev rev' : Address → Revision}

/-! ## Slots of mapped arenas -/

theorem engaged_of_shape (h : t'.shape = t.shape) : t'.engaged = t.engaged := by
  have hfold : ∀ t : Arena, t.engaged = t.shape.2.2.2.foldl (fun n p => n + p.1) 0 := by
    intro t
    rw [engaged, shape, Array.foldl_map]
  rw [hfold, hfold, h]

theorem isLive_map : (t.map g).isLive a = t.isLive a := by
  rw [isLive, find?_map, Option.isSome_map, isLive]

theorem vacancyAmong?_map (is : List Nat) : (t.map g).vacancyAmong? is = t.vacancyAmong? is := by
  induction is with
  | nil => rfl
  | cons i is ih =>
    simp only [vacancyAmong?, segment?_map, ih]
    cases t.segments[i]? with
    | none => rfl
    | some s =>
      simp only [Option.map_some]
      rw [Segment.vacancy?_mapIdx s fun j => g (addressAt i (.ofNat (j + 1)))]
      rfl

theorem vacancy?_map : (t.map g).vacancy? = t.vacancy? := by
  have horder : (t.map g).trialOrder = t.trialOrder := by
    simp only [trialOrder, map, Array.size_mapIdx]
  rw [vacancy?, vacancy?, horder, vacancyAmong?_map]

theorem shape_occupy_map {v : Vacancy} :
    ((t.map g).occupy e v).shape = (t.occupy e v).shape := by
  obtain ⟨n, v⟩ := v
  simp only [shape, occupy, map, Prod.mk.injEq, true_and]
  ext i : 1
  · simp
  · simp only [Array.getElem_map, Array.getElem_modify, Array.getElem_mapIdx]
    split
    · cases v <;> simp [Segment.occupy]
    · simp

theorem grow_map : (t.map g).grow = t.grow.map g := by
  simp [grow, map, Array.mapIdx_push]

/-- Storing an element comes before a map or after it, if the map leaves the element as it is. -/
theorem Tidy.occupy_map (ht : t.Tidy) {i : Nat} {s : Segment} {v : Segment.Vacancy}
    (hs : t.segments[i]? = some s) (hv : s.vacancy? t.capacity = .ok (some v))
    (hg : g (addressAt i v.offset) e = e) :
    (t.map g).occupy e (i, v) = (t.occupy e (i, v)).map g := by
  let s' : Segment := { s with
    slots := s.slots.mapIdx fun j x => x.update (g (addressAt i (.ofNat (j + 1)))) }
  have hs' : (t.map g).segments[i]? = some s' := by
    rw [segment?_map, hs]
    rfl
  have hv' : s'.vacancy? (t.map g).capacity = .ok (some v) :=
    (Segment.vacancy?_mapIdx s (fun j => g (addressAt i (.ofNat (j + 1)))) t.capacity).trans hv
  have hstored := ht.occupy hs hv e
  have hstored' := (ht.map g).occupy hs' hv' e
  refine (hstored.tidy.map g).ext_slot? (shape_occupy_map.trans shape_map.symm) fun b => ?_
  rw [hstored'.slot?, slot?_map, slot?_map, hstored.slot?]
  split
  next hb =>
    subst hb
    rw [Option.map_some, Slot.update, hg]
  next => rfl

/-- Where nothing would change in the new element, allocating comes before a map or after it. -/
theorem Tidy.allocate_map (ht : t.Tidy) (hg : ∀ a, t.find? a = none → ∀ e, g a e = e)
    (e : Element) : (Arena.allocate e).on (t.map g)
      = (((Arena.allocate e).on t).1, ((Arena.allocate e).on t).2.map g) := by
  simp only [Arena.allocate, Step.on_bind, Step.on_ask, vacancy?_map]
  rcases ht.vacancy?_cases with ⟨i, s, v, -, hs, hv, hw⟩ | ⟨hw, -⟩
  · simp only [hw, Step.on_bind, Step.on_change, Step.on_pure,
      ht.occupy_map hs hv (hg _ (ht.occupy hs hv e).fresh e)]
  · have hsize : (t.map g).segments.size = t.segments.size := by simp [Arena.map]
    have hmax : (t.map g).maxSegments = t.maxSegments := rfl
    simp only [hw, Step.on_bind, Step.on_get, hsize, hmax]
    split
    next hlt =>
      have hs : t.grow.segments[t.segments.size]? = some {} := by simp [Arena.grow]
      have hv : ({} : Segment).vacancy? t.capacity = .ok (some (.fresh 1)) := by
        have := ht.capacity_pos
        simp [Segment.vacancy?, this]
      have hfresh := ((ht.grow hlt).occupy hs hv e).fresh
      rw [find?, slot?_grow] at hfresh
      simp only [Step.on_bind, Step.on_change, Step.on_pure, grow_map,
        (ht.grow hlt).occupy_map hs hv (hg _ hfresh e)]
    next => rfl

/-- Freeing comes before a map or after it. -/
theorem free_map : (Arena.free a).on (t.map g)
    = (((Arena.free a).on t).1, ((Arena.free a).on t).2.map g) := by
  simp only [Arena.free, Step.on_bind, Step.on_get, isLive_map]
  split
  · simp only [Step.on_change, Prod.mk.injEq, true_and, map, Arena.mk.injEq, and_true]
    ext i : 1
    · simp
    · simp only [Array.getElem_modify, Array.getElem_mapIdx]
      split
      next =>
        simp only [Segment.free, Segment.mk.injEq, and_true]
        refine Array.ext_getElem? fun j => ?_
        simp only [Array.getElem?_mapIdx, Array.getElem?_setIfInBounds, Array.size_mapIdx]
        split
        · split <;> rfl
        · rfl
      next => rfl
  · rfl

/-! ## Two arenas side by side -/

/-- `t'` is the tidy arena `t` with its elements revised, and no revision changes a mould. -/
structure Revised (rev : Address → Revision) (t t' : Arena) : Prop where
  tidy : t.Tidy
  moulds : ∀ a e, t.find? a = some e → e.KeepsMould (rev a)
  eq : t' = t.map fun a e => e.revised (rev a)

/-- Nothing waits for an address that is not live. -/
def Awaited (rev : Address → Revision) (t : Arena) : Prop :=
  ∀ a, t.find? a = none → rev a = {}

theorem Revised.find? (h : Revised rev t t') :
    t'.find? a = (t.find? a).map (·.revised (rev a)) := by
  rw [h.eq, find?_map]

theorem Revised.congr (h : Revised rev t t')
    (hrev : ∀ a e, t.find? a = some e → rev' a = rev a) : Revised rev' t t' where
  tidy := h.tidy
  moulds a e he := by
    rw [hrev a e he]
    exact h.moulds a e he
  eq := h.eq.trans (h.tidy.map_congr fun a e he => by rw [hrev a e he])

theorem Revised.update (h : Revised rev t t') {f : Element → Element} (hf : Element.Blind f) :
    Revised rev (t.update a f) (t'.update a f) where
  tidy := h.tidy.update a f
  moulds b e' he' := by
    rw [find?_update] at he'
    split at he'
    next =>
      obtain ⟨e, he, rfl⟩ := Option.map_eq_some_iff.1 he'
      exact hf.keepsMould_iff.2 (h.moulds b e he)
    next => exact h.moulds b e' he'
  eq := by
    rw [h.eq, h.tidy.map_update, h.tidy.update_eq_map, h.tidy.map_map]
    refine h.tidy.map_congr fun b e he => ?_
    split
    next => exact hf.apply_revised (h.moulds b e he)
    next => rfl

theorem aligned_revised (rev : Address → Revision) : Aligned (Revised rev) where
  outline? t t' a h := by
    rw [h.find?]
    cases he : t.find? a with
    | none => rfl
    | some e => simp only [Option.map_some, (h.moulds a e he).outline_revised]
  engaged t t' h := by
    rw [h.eq]
    exact engaged_of_shape shape_map
  updateBlind t t' a f hf h := h.update hf

theorem aligned_awaited (rev : Address → Revision) :
    Aligned fun t t' => Revised rev t t' ∧ t.Awaited rev where
  outline? t t' a h := (aligned_revised rev).outline? t t' a h.1
  engaged t t' h := (aligned_revised rev).engaged t t' h.1
  updateBlind t t' a f hf h := by
    refine ⟨h.1.update hf, fun b hb => h.2 b ?_⟩
    rw [find?_update] at hb
    split at hb
    · simpa using hb
    · exact hb

theorem respects_free (a : Address) : Step.Respects (Revised rev) (Arena.free a) := by
  intro t t' h
  have hrun := free_map (a := a) (t := t) (g := fun a e => e.revised (rev a))
  rw [← h.eq] at hrun
  rw [hrun]
  refine ⟨rfl, ?_⟩
  cases he : t.find? a with
  | none =>
    have hlive : t.isLive a = false := by simp [isLive, he]
    have hsame : ((Arena.free a).on t).2 = t := by
      simp [Arena.free, Step.on_bind, hlive]
    rw [hsame]
    exact ⟨h.tidy, h.moulds, rfl⟩
  | some e =>
    obtain ⟨t₁, hrun₁, htidy, -, hfind⟩ := h.tidy.free he
    rw [hrun₁]
    refine ⟨htidy, fun b e' he' => ?_, rfl⟩
    rw [hfind] at he'
    split at he'
    · simp at he'
    · exact h.moulds b e' he'

theorem respects_allocate (e : Element) :
    Step.Respects (fun t t' => Revised rev t t' ∧ t.Awaited rev) (Arena.allocate e) := by
  rintro t t' ⟨h, hawaited⟩
  have hrun := h.tidy.allocate_map (g := fun a e => e.revised (rev a))
    (fun a ha e => by rw [hawaited a ha, Element.revised_nothing]) e
  rw [← h.eq] at hrun
  rw [hrun]
  refine ⟨rfl, ?_⟩
  rcases h.tidy.allocate e with ⟨a, t₁, hrun₁, hstored⟩ | hrun₁
  · rw [hrun₁]
    refine ⟨⟨hstored.tidy, fun b e' he' => ?_, rfl⟩, fun b hb => ?_⟩
    · rw [hstored.find?] at he'
      split at he'
      next hb =>
        rw [hb, hawaited a hstored.fresh]
        rfl
      next => exact h.moulds b e' he'
    · rw [hstored.find?] at hb
      split at hb
      · simp at hb
      · exact hawaited b hb
  · rw [hrun₁]
    exact ⟨⟨h.tidy, h.moulds, rfl⟩, hawaited⟩

end Arena

end SemanticNet
