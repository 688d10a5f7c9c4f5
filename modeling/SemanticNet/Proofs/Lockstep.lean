import SemanticNet.Proofs.Outline
import SemanticNet.Proofs.Steps
import SemanticNet.Store.Create
import SemanticNet.Transaction

/-!
# Steps in parallel

Splicing looks at rings and links only, so on two arenas whose elements have the same ones it comes
to the same, and it respects every relation of such arenas that a change of one ring or link
respects (`Arena.Spliced`). Sweeping looks at outlines only, and respects what a blind change of one
element respects (`Arena.Aligned`). Where related arenas have the same elements and any change of
one element respects the relation (`Arena.Parallel`), changes and commits come to the same on both;
and where allocating and freeing respect it too (`Arena.Lockstep`), every operation on a store does.
-/

namespace SemanticNet

namespace Arena

variable {R : Arena → Arena → Prop} {t t' : Arena} {a c x : Address} {d : Direction}
  {as ms filed : List Address} {ps : List (Address × Direction)} {errands : List Errand}

/-- What outlines decide is the same where the outlines are. -/
theorem map_find?_of_outline {β : Type} {k : Element → β}
    (hout : (t'.find? a).map Element.outline = (t.find? a).map Element.outline)
    (hk : ∀ e e', e'.outline = e.outline → k e' = k e) :
    (t'.find? a).map k = (t.find? a).map k := by
  cases he : t.find? a with
  | none =>
    rw [he] at hout
    have he' : t'.find? a = none := by simpa using hout
    rw [he']
  | some e =>
    cases he' : t'.find? a with
    | none => simp [he, he'] at hout
    | some e' =>
      rw [he, he'] at hout
      rw [Option.map_some, Option.map_some, hk e e' (Option.some.inj hout)]

/-- What is fetched depends on what is found. -/
theorem map_fetch_of_find? {β : Type} {k : Element → β}
    (h : (t'.find? a).map k = (t.find? a).map k) : (t'.fetch a).map k = (t.fetch a).map k := by
  have hfetch : ∀ s : Arena, (s.fetch a).map k = match (s.find? a).map k with
      | some b => .ok b
      | none => .error (if a.isEmpty then .invalidParams .emptyAddress else .notLive a) := by
    intro s
    rw [Arena.fetch]
    cases s.find? a <;> rfl
  rw [hfetch, hfetch, h]

/-- The elements of both arenas have the same rings and links. -/
structure SameRings (t t' : Arena) : Prop where
  ring : ∀ a d, (t'.find? a).map (·.ring d) = (t.find? a).map (·.ring d)
  link? : ∀ c x d, (t'.find? c).map (·.link? x d) = (t.find? c).map (·.link? x d)

/-- Related arenas have the same rings and links, and stay related when a ring or a link of one
element of both is changed. -/
structure Spliced (R : Arena → Arena → Prop) : Prop where
  sameRings : ∀ t t', R t t' → t.SameRings t'
  setRing : ∀ t t' a d (r : RingHead → RingHead), R t t' →
    R (t.update a fun e => e.setRing (r (e.ring d)) d)
      (t'.update a fun e => e.setRing (r (e.ring d)) d)
  setLink : ∀ t t' c x d l, R t t' →
    R (t.update c (·.setLink x d l)) (t'.update c (·.setLink x d l))

/-- The elements of related arenas have the same outlines, and the arenas stay related when one
element of both undergoes a blind change. -/
structure Aligned (R : Arena → Arena → Prop) : Prop extends Spliced R where
  outline? : ∀ t t' a, R t t' →
    (t'.find? a).map Element.outline = (t.find? a).map Element.outline
  engaged : ∀ t t', R t t' → t'.engaged = t.engaged
  updateBlind : ∀ t t' a f, Element.Blind f → R t t' → R (t.update a f) (t'.update a f)
  sameRings := fun t t' h => {
    ring := fun a _ => map_find?_of_outline (outline? t t' a h) fun _ _ => Element.ring_of_outline
    link? := fun c _ _ => map_find?_of_outline (outline? t t' c h) fun _ _ =>
      Element.link?_of_outline }
  setRing := fun t t' a _ _ h => updateBlind t t' a _ Element.blind_setRing h
  setLink := fun t t' c _ _ _ h => updateBlind t t' c _ Element.blind_setLink h

/-- Related arenas have the same elements, and stay related when one element of both is changed. -/
structure Parallel (R : Arena → Arena → Prop) : Prop extends Aligned R where
  find? : ∀ t t' a, R t t' → t'.find? a = t.find? a
  update : ∀ t t' a f, R t t' → R (t.update a f) (t'.update a f)
  outline? := fun t t' a h => by rw [find? t t' a h]
  updateBlind := fun t t' a f _ h => update t t' a f h

/-- What the change of one element keeps is a relation of arenas with themselves. -/
theorem parallel_of_update {P : Arena → Prop} (hP : ∀ t a f, P t → P (t.update a f)) :
    Parallel fun t t' => t' = t ∧ P t where
  find? t t' a h := by rw [h.1]
  engaged t t' h := by rw [h.1]
  update t t' a f h := ⟨by rw [h.1], hP t a f h.2⟩

/-! ## Questions -/

namespace SameRings

theorem linkOf (h : t.SameRings t') : t'.linkOf c x d = t.linkOf c x d := by
  have hlink : ∀ s : Arena, s.linkOf c x d = (s.fetch c).map (·.link? x d) >>=
      fun l => l.elim (throw (.corrupt .notIncident)) pure := by
    intro s
    rw [Arena.linkOf]
    cases s.fetch c with
    | error f => rfl
    | ok e =>
      simp only [bind, Except.bind, Except.map]
      cases e.link? x d <;> rfl
  rw [hlink, hlink, map_fetch_of_find? (h.link? c x d)]

theorem membersFrom (h : t.SameRings t') {head : Address} (n : Nat) (c : Address) :
    t'.membersFrom x d head n c = t.membersFrom x d head n c := by
  induction n generalizing c with
  | zero => rfl
  | succ n ih => simp only [Arena.membersFrom, h.linkOf, ih]

theorem members (h : t.SameRings t') : t'.members x d = t.members x d := by
  have hring : ∀ s : Arena, s.members x d = (s.fetch x).map (·.ring d) >>= fun r =>
      if r.first.isEmpty then return []
      else s.membersFrom x d r.first r.count.toNat r.first := by
    intro s
    rw [Arena.members]
    cases s.fetch x <;> rfl
  rw [hring, hring, map_fetch_of_find? (h.ring x d)]
  simp only [h.membersFrom]

theorem incident (h : t.SameRings t') : t'.incident x = t.incident x := by
  simp only [Arena.incident, h.members]

end SameRings

namespace Spliced

/-! ## Splicing -/

theorem alterRing (h : Spliced R) (r : RingHead → RingHead) :
    Step.Respects R (Arena.alter x fun e => e.setRing (r (e.ring d)) d) :=
  Step.Respects.ask_bind (·.ring d)
    (fun t t' ht => map_fetch_of_find? ((h.sameRings t t' ht).ring x d)) (fun _ _ _ => rfl)
    fun _ => Step.respects_change fun t t' ht => h.setRing t t' x d r ht

theorem relink (h : Spliced R) (f : RingLink → RingLink) :
    Step.Respects R (Arena.relink c x d f) :=
  (Step.respects_ask fun t t' ht => (h.sameRings t t' ht).linkOf).bind fun _ =>
    Step.respects_change fun t t' ht => h.setLink t t' c x d _ ht

theorem attach (h : Spliced R) : Step.Respects R (Arena.attach c x d) := by
  have hhead : Step.Respects R
      (Arena.alter x fun e => e.setRing ⟨c, (e.ring d).count + 1⟩ d) :=
    h.alterRing fun r => ⟨c, r.count + 1⟩
  refine Step.Respects.ask_bind (·.ring d)
    (fun t t' ht => map_fetch_of_find? ((h.sameRings t t' ht).ring x d))
    (fun e e' he => by dsimp only at he ⊢; rw [he]) fun e => ?_
  dsimp only
  split
  · exact (h.relink _).bind fun _ => hhead
  · refine (Step.respects_ask fun t t' ht => (h.sameRings t t' ht).linkOf).bind fun l => ?_
    exact (h.relink _).bind fun _ => (h.relink _).bind fun _ => (h.relink _).bind fun _ => hhead

theorem detach (h : Spliced R) : Step.Respects R (Arena.detach c x d) := by
  refine (Step.respects_ask fun t t' ht => (h.sameRings t t' ht).linkOf).bind fun l => ?_
  have hcount (heir : Address) : Step.Respects R (Arena.alter x fun e =>
      let r := e.ring d
      e.setRing ⟨if r.first = c then heir else r.first, if r.count = 0 then 0 else r.count - 1⟩
        d) :=
    h.alterRing fun r =>
      ⟨if r.first = c then heir else r.first, if r.count = 0 then 0 else r.count - 1⟩
  dsimp only
  split
  · exact (h.relink _).bind fun _ => (h.relink _).bind fun _ => (h.relink _).bind fun _ => hcount _
  · exact (h.relink _).bind fun _ => hcount _

theorem attachAll (h : Spliced R) : Step.Respects R (Store.attachAll c ps) := by
  induction ps with
  | nil => exact Step.respects_pure ()
  | cons p ps ih => exact h.attach.bind fun _ => ih

theorem detachAll (h : Spliced R) : Step.Respects R (Arena.detachAll c ps) := by
  induction ps with
  | nil => exact Step.respects_pure ()
  | cons p ps ih => exact h.detach.bind fun _ => ih

end Spliced

namespace Aligned

theorem map_find? {β : Type} {k : Element → β} (h : Aligned R) (ht : R t t')
    (hk : ∀ e e', e'.outline = e.outline → k e' = k e) :
    (t'.find? a).map k = (t.find? a).map k := map_find?_of_outline (h.outline? t t' a ht) hk

theorem map_fetch {β : Type} {k : Element → β} (h : Aligned R) (ht : R t t')
    (hk : ∀ e e', e'.outline = e.outline → k e' = k e) :
    (t'.fetch a).map k = (t.fetch a).map k := map_fetch_of_find? (h.map_find? ht hk)

/-! ## Sweeping -/

theorem setErasing (h : Aligned R) (ht : R t t') (mark : Bool) :
    R (t.setErasing a mark) (t'.setErasing a mark) :=
  h.updateBlind t t' a _ Element.blind_setErasing ht

theorem markNew (h : Aligned R) (ht : R t t') (as fresh : List Address) :
    (t'.markNew as fresh).1 = (t.markNew as fresh).1 ∧
      R (t.markNew as fresh).2 (t'.markNew as fresh).2 := by
  have hmark : ∀ (s : Arena) a as fresh, s.markNew (a :: as) fresh =
      if (s.find? a).map Element.erasing = some false then
        (s.setErasing a true).markNew as (a :: fresh)
      else s.markNew as fresh := by
    intro s a as fresh
    rw [Arena.markNew]
    cases s.find? a with
    | none => rfl
    | some e => cases hm : e.erasing <;> simp [hm]
  induction as generalizing t t' fresh with
  | nil => exact ⟨rfl, ht⟩
  | cons a as ih =>
    rw [hmark, hmark, h.map_find? ht fun _ _ => Element.erasing_of_outline]
    split
    · exact ih (h.setErasing ht true) (a :: fresh)
    · exact ih ht fresh

theorem sweepFrom (h : Aligned R) (ht : R t t') (n : Nat) :
    (t'.sweepFrom ms filed n errands).order = (t.sweepFrom ms filed n errands).order ∧
      (t'.sweepFrom ms filed n errands).marked = (t.sweepFrom ms filed n errands).marked ∧
      R (t.sweepFrom ms filed n errands).arena (t'.sweepFrom ms filed n errands).arena := by
  induction n generalizing t t' ms filed errands with
  | zero => cases errands <;> exact ⟨rfl, rfl, ht⟩
  | succ n ih =>
    cases errands with
    | nil => exact ⟨rfl, rfl, ht⟩
    | cons k errands =>
      cases k with
      | file a => exact ih ht
      | visit a =>
        rw [Arena.sweepFrom, Arena.sweepFrom, (h.sameRings t t' ht).incident]
        split
        · exact ⟨rfl, rfl, ht⟩
        next connectors _ =>
          obtain ⟨hfresh, hmarked⟩ := h.markNew ht connectors []
          simp only [hfresh]
          exact ih hmarked

theorem sweep (h : Aligned R) (ht : R t t') :
    (t'.sweep x).order = (t.sweep x).order ∧ (t'.sweep x).marked = (t.sweep x).marked ∧
      R (t.sweep x).arena (t'.sweep x).arena := by
  rw [Arena.sweep, Arena.sweep, h.engaged t t' ht]
  exact h.sweepFrom (h.setErasing ht true) _

theorem unmark (h : Aligned R) (ht : R t t') : R (t.unmark as) (t'.unmark as) := by
  induction as generalizing t t' with
  | nil => exact ht
  | cons a as ih => exact ih (h.setErasing ht false)

end Aligned

namespace Parallel

theorem fetch (h : Parallel R) (ht : R t t') : t'.fetch a = t.fetch a := by
  rw [Arena.fetch, Arena.fetch, h.find? t t' a ht]

theorem alter (h : Parallel R) (f : Element → Element) : Step.Respects R (Arena.alter x f) :=
  (Step.respects_ask fun _ _ ht => h.fetch ht).bind fun _ =>
    Step.respects_change fun t t' ht => h.update t t' x f ht

end Parallel

/-- What the change of an element keeps is kept whether the element is live or not. -/
theorem keeps_alter {P : Arena → Prop} {f : Element → Element} (h : ∀ t, P t → P (t.update a f)) :
    Step.Keeps P (Arena.alter a f) := (Step.keeps_ask _).bind fun _ t ht => h t ht

/-- Related arenas hand out and take back the same slots, and stay related. -/
structure Lockstep (R : Arena → Arena → Prop) : Prop extends Parallel R where
  allocate : ∀ e, Step.Respects R (Arena.allocate e)
  free : ∀ a, Step.Respects R (Arena.free a)

/-- What storing and freeing keep, and changes of elements as well, is a relation of arenas with
themselves. -/
theorem lockstep_of_kept {P : Arena → Prop} (hupdate : ∀ t a f, P t → P (t.update a f))
    (hoccupy : ∀ t e v, P t → P (t.occupy e v))
    (hgrow : ∀ t, t.segments.size < t.maxSegments → P t → P t.grow)
    (hfree : ∀ (t : Arena) (a : Address), P t → P { t with
      segments := t.segments.modify (a.segment.toNat - 1) (·.free a.offset)
      hint := a.segment.toNat - 1 }) : Lockstep fun t t' => t' = t ∧ P t where
  toParallel := parallel_of_update hupdate
  allocate e := by
    refine Step.respects_iff_keeps.2 fun t h => ?_
    simp only [Arena.allocate, Step.on_bind, Step.on_ask]
    cases t.vacancy? with
    | error f => exact h
    | ok v =>
      cases v with
      | some v => exact hoccupy t e v h
      | none =>
        simp only [Step.on_bind, Step.on_get]
        split
        next hlt => exact hoccupy _ e _ (hgrow t hlt h)
        next => exact h
  free a := by
    refine Step.respects_iff_keeps.2 fun t h => ?_
    simp only [Arena.free, Step.on_bind, Step.on_get]
    split
    · exact hfree t a h
    · exact h

end Arena

/-! ## Steps on stores -/

/-- An insertion does to the arena what allocating does, and nothing to the contents. -/
theorem Store.insert_on (e : Element) (s : Store) :
    ((insert e).on s).1 = ((Arena.allocate e).on s.arena).1 ∧
      ((insert e).on s).2.arena = ((Arena.allocate e).on s.arena).2 ∧
      ((insert e).on s).2.contents = s.contents := by
  have hrun : onArena (Arena.allocate e) s = (((Arena.allocate e).on s.arena).1,
      { s with arena := ((Arena.allocate e).on s.arena).2 }) := rfl
  show (insert e s).1 = _ ∧ (insert e s).2.arena = _ ∧ (insert e s).2.contents = _
  simp only [Machinery.insert, hrun]
  cases ((Arena.allocate e).on s.arena).1 with
  | ok a => exact ⟨rfl, rfl, rfl⟩
  | error f => cases f <;> exact ⟨rfl, rfl, rfl⟩

/-- What freeing one element respects is respected by freeing many. -/
theorem Store.respects_releaseAll {R : Store → Store → Prop}
    (h : ∀ a, Step.Respects R (release a)) (passes : Nat) (as : List Address) :
    Step.Respects R (releaseAll passes as) := by
  have hpass : ∀ as, Step.Respects R (releasePass as) := by
    intro as
    induction as with
    | nil => exact Step.respects_pure _
    | cons a as ih => exact (h a).bind fun _ => ih.bind fun _ => Step.respects_pure _
  induction passes generalizing as with
  | zero =>
    cases as with
    | nil => exact Step.respects_pure _
    | cons a as => exact Step.respects_throw _
  | succ passes ih =>
    cases as with
    | nil => exact Step.respects_pure _
    | cons a as => exact (hpass (a :: as)).bind fun as => ih as

/-- An erasure keeps what is kept by marking, by taking marks off and by freeing one element. -/
theorem Store.keeps_erase {P : Store → Prop} (hrelease : ∀ a, Step.Keeps P (release a))
    (hsweep : ∀ s a, P s → P { s with arena := (s.arena.sweep a).arena })
    (hunmark : ∀ s as, P s → P { s with arena := s.arena.unmark as }) (a : Address) :
    Step.Keeps P (erase a) := by
  have hall : ∀ passes as, Step.Keeps P (releaseAll passes as) := fun passes as =>
    Step.respects_iff_keeps.1 (respects_releaseAll
      (fun b => Step.respects_iff_keeps.2 (hrelease b)) passes as)
  refine (Step.keeps_ask _).bind fun e => ?_
  split
  · exact Step.keeps_pure _
  · refine Step.Keeps.bind (fun s hs => hsweep s a hs) fun swept =>
      Step.Keeps.tryCatch ?_ fun f => ?_
    · exact (Step.keeps_ask _).bind fun order => (hall order.length order).bind fun _ =>
        Step.keeps_pure _
    · exact Step.Keeps.bind (fun s hs => hunmark s swept.2 hs) fun _ => Step.keeps_throw f

/-- Stores whose arenas are related. -/
def Arena.Lockstep.OfStores (R : Arena → Arena → Prop) (s s' : Store) : Prop := R s.arena s'.arena

namespace Arena.Aligned

open Arena.Lockstep

variable {R : Arena → Arena → Prop} {s s' : Store} {a : Address}

theorem onArena {α : Type} {x : Step Arena α} (hx : Step.Respects R x) :
    Step.Respects (OfStores R) (Store.onArena x) := fun s s' hs => hx s.arena s'.arena hs

/-! ### Creations

They respect what is respected by allocating elements of known type too. -/

theorem insert {e : Element} (hallocate : Step.Respects R (Arena.allocate e)) :
    Step.Respects (OfStores R) (Store.insert e) := by
  intro s s' hs
  obtain ⟨houtcome, harena⟩ := hallocate s.arena s'.arena hs
  obtain ⟨hanswer, hleft, -⟩ := Store.insert_on e s
  obtain ⟨hanswer', hleft', -⟩ := Store.insert_on e s'
  refine ⟨by rw [hanswer, hanswer', houtcome], ?_⟩
  rw [OfStores, hleft, hleft']
  exact harena

theorem addNode
    (hallocate : ∀ e : Element, e.type.isUnknown = false → Step.Respects R (Arena.allocate e))
    (type : ElementType) (access : Access) :
    Step.Respects (OfStores R) (Store.addNode type access) := by
  have hnew : Step.Respects (OfStores R) (Store.insert { type := type ||| .node, access }) :=
    insert (hallocate _ (ElementType.isUnknown_or (by decide)))
  rw [Store.addNode, Machinery.addNode]
  split
  · exact (Step.respects_throw _).bind fun _ => hnew
  · exact hnew

theorem addLink
    (hallocate : ∀ e : Element, e.type.isUnknown = false → Step.Respects R (Arena.allocate e))
    (type : ElementType) (access : Access) :
    Step.Respects (OfStores R) (Store.addLink type access) := by
  have hnew : Step.Respects (OfStores R) (Store.insert { type := type ||| .link, access }) :=
    insert (hallocate _ (ElementType.isUnknown_or (by decide)))
  rw [Store.addLink, Machinery.addLink]
  split
  · exact (Step.respects_throw _).bind fun _ => hnew
  · exact hnew

theorem requireStaying (h : Aligned R) :
    Step.Respects (OfStores R) (Step.ask (·.requireStaying a)) := by
  have hmark : ∀ s : Store, s.requireStaying a = (s.arena.fetch a).map (·.erasing) >>= fun m =>
      if m then throw (.notLive a) else pure () := by
    intro s
    rw [Store.requireStaying]
    cases s.arena.fetch a <;> rfl
  refine Step.respects_ask fun s s' hs => ?_
  rw [hmark, hmark, h.map_fetch hs fun _ _ => Element.erasing_of_outline]

theorem make (h : Aligned R) {e : Element} (hallocate : Step.Respects R (Arena.allocate e)) :
    Step.Respects (OfStores R) (Store.make e) :=
  (insert hallocate).bind fun c => (onArena h.attachAll).bind fun _ => Step.respects_pure c

theorem connect (h : Aligned R)
    (hallocate : ∀ e : Element, e.type.isUnknown = false → Step.Respects R (Arena.allocate e))
    (type : ElementType) (source target : Address) (access : Access) :
    Step.Respects (OfStores R) (Store.connect type source target access) := by
  refine Step.Respects.guarded fun hkind => Step.Respects.guarded fun _ => ?_
  have hnew : Step.Respects (OfStores R)
      (Store.make { type, access, connection := some { source, target } }) :=
    h.make (hallocate _ (ElementType.isUnknown_of_isConnectorKind hkind))
  split
  · exact (Step.respects_throw _).bind fun _ =>
      h.requireStaying.bind fun _ => h.requireStaying.bind fun _ => hnew
  · exact h.requireStaying.bind fun _ => h.requireStaying.bind fun _ => hnew

/-! ### Erasures

They respect what is respected by freeing too. -/

theorem release (h : Aligned R) (hfree : ∀ a, Step.Respects R (Arena.free a)) (a : Address) :
    Step.Respects (OfStores R) (Store.release a) := by
  refine Step.Respects.ask_bind Element.outline (fun s s' hs => h.map_fetch hs fun _ _ he => he)
    (fun e e' he => ?_) fun e => ?_
  · have hdrop : Store.dropContent a e'.type = Store.dropContent a e.type := by
      funext s
      rw [Store.dropContent, Store.dropContent, Element.isLink_of_outline he]
    simp only [Element.hasIncident_of_outline he, Element.places_of_outline he, hdrop,
      Element.sort_of_outline he]
  split
  · exact Step.respects_pure _
  · refine (onArena h.detachAll).bind fun _ => ?_
    refine (Step.respects_change fun s s' hs => ?_).bind fun _ => ?_
    · rw [Store.dropContent, Store.dropContent]
      split <;> exact hs
    · exact (onArena (hfree a)).bind fun _ =>
        (Step.respects_change fun s s' hs => hs).bind fun _ => Step.respects_pure _

theorem erase (h : Aligned R) (hfree : ∀ a, Step.Respects R (Arena.free a)) (a : Address) :
    Step.Respects (OfStores R) (Store.erase a) := by
  refine Step.Respects.ask_bind (·.erasing)
    (fun s s' hs => h.map_fetch hs fun _ _ => Element.erasing_of_outline)
    (fun e e' he => by dsimp only at he ⊢; rw [he]) fun e => ?_
  dsimp only
  split
  · exact Step.respects_pure _
  · refine (onArena fun t t' ht => ?_).bind fun swept => ?_
    · obtain ⟨horder, hmarked, harena⟩ := h.sweep (x := a) ht
      refine ⟨?_, harena⟩
      show Except.ok ((t'.sweep a).order, (t'.sweep a).marked)
        = Except.ok ((t.sweep a).order, (t.sweep a).marked)
      rw [horder, hmarked]
    · refine Step.Respects.tryCatch ?_ fun f => ?_
      · exact (Step.respects_ask fun s s' _ => rfl).bind fun order =>
          (Store.respects_releaseAll (h.release hfree) order.length order).bind fun _ =>
          Step.respects_pure _
      · exact (onArena (Step.respects_change fun t t' ht => h.unmark ht)).bind fun _ =>
          Step.respects_throw f

end Arena.Aligned

namespace Arena.Parallel

variable {R : Arena → Arena → Prop} {s s' : Store} {a : Address}

open Arena.Aligned (onArena)
open Arena.Lockstep (OfStores)

/-! ## Changes -/

theorem narrowed (h : Parallel R) (hs : OfStores R s s') {type : ElementType} :
    s'.narrowed a type = s.narrowed a type := by
  rw [Store.narrowed, Store.narrowed, Store.typeOf, Store.typeOf, h.fetch hs]

theorem requireLink (h : Parallel R) (hs : OfStores R s s') :
    s'.requireLink a = s.requireLink a := by
  rw [Store.requireLink, Store.requireLink, Store.typeOf, Store.typeOf, h.fetch hs]

theorem narrow (h : Parallel R) (a : Address) (type : ElementType) :
    Step.Respects (OfStores R) (Store.narrow a type) := by
  have hask : Step.Respects (OfStores R) (Step.ask (·.narrowed a type)) :=
    Step.respects_ask fun _ _ hs => h.narrowed hs
  exact hask.bind fun _ => onArena (h.alter _)

theorem setAccess (h : Parallel R) (a : Address) (access : Access) :
    Step.Respects (OfStores R) (Store.setAccess a access) := onArena (h.alter _)

theorem setContent (h : Parallel R) (a : Address) (bytes : Bytes) :
    Step.Respects (OfStores R) (Store.setContent a bytes) :=
  (Step.respects_ask fun _ _ hs => h.requireLink hs).bind fun _ =>
    Step.respects_change fun _ _ hs => hs

theorem applyAll (h : Parallel R) (ks : List Change) :
    Step.Respects (OfStores R) (Store.applyAll ks) := by
  induction ks with
  | nil => exact Step.respects_pure _
  | cons k ks ih =>
    refine Step.Respects.bind ?_ fun _ => ih
    cases k with
    | setType a type => exact onArena (h.alter _)
    | setAccess a access => exact h.setAccess a access
    | setContent a bytes => exact h.setContent a bytes

theorem planRevisions (h : Parallel R) (hs : OfStores R s s') (rs : List (Address × Revision)) :
    s'.planRevisions rs = s.planRevisions rs := by
  induction rs with
  | nil => rfl
  | cons p rs ih =>
    have hp : s'.planRevision p.1 p.2 = s.planRevision p.1 p.2 := by
      simp only [Store.planRevision, h.narrowed hs, Store.typeOf, h.fetch hs]
    rw [Store.planRevisions, Store.planRevisions, hp, ih]

theorem planContents (h : Parallel R) (hs : OfStores R s s') (cs : List (Address × Bytes)) :
    s'.planContents cs = s.planContents cs := by
  induction cs with
  | nil => rfl
  | cons p cs ih => rw [Store.planContents, Store.planContents, h.requireLink hs, ih]

theorem plan (h : Parallel R) (hs : OfStores R s s') (b : Staging) : s'.plan b = s.plan b := by
  rw [Store.plan, Store.plan, h.planRevisions hs, h.planContents hs]

/-- A commit comes to the same for a transaction on either of two related stores. -/
theorem commit (h : Parallel R) :
    Step.Respects (fun w w' : Work => w'.1 = w.1 ∧ OfStores R w.2 w'.2) Transaction.commit := by
  have hown : ∀ {α : Type} (x : Step Transaction α),
      Step.Respects (fun w w' : Work => w'.1 = w.1 ∧ OfStores R w.2 w'.2)
        (Work.onTransaction x) := by
    rintro α x ⟨tx, s⟩ ⟨tx', s'⟩ ⟨rfl, hs⟩
    exact ⟨rfl, rfl, hs⟩
  refine (hown _).bind fun _ => Step.Respects.bind (Step.Respects.tryCatch ?_ fun f => ?_)
    fun _ => hown _
  · refine (Step.respects_ask ?_).bind fun ks => ?_
    · rintro ⟨tx, s⟩ ⟨tx', s'⟩ ⟨rfl, hs⟩
      exact h.plan hs _
    · rintro ⟨tx, s⟩ ⟨tx', s'⟩ ⟨rfl, hs⟩
      obtain ⟨houtcome, hstores⟩ := h.applyAll ks s s' hs
      exact ⟨houtcome, rfl, hstores⟩
  · exact (hown _).bind fun _ => Step.respects_throw f

end Arena.Parallel

/-- What applying planned changes keeps is kept by a commit. -/
theorem Transaction.keeps_commit {P : Store → Prop}
    (h : ∀ s b ks, P s → s.plan b = .ok ks → P ((Store.applyAll ks).on s).2) (x : Transaction) :
    Step.Keeps P (Step.within (fun s => (x, s)) (fun w _ => w.2) default commit) := by
  have hown : ∀ {α : Type} (y : Step Transaction α),
      Step.Keeps (fun w : Work => P w.2) (Work.onTransaction y) := fun _ _ hw => hw
  have hcommit : Step.Keeps (fun w : Work => P w.2) commit := by
    refine (hown _).bind fun _ => Step.Keeps.bind (Step.Keeps.tryCatch ?_ fun f => ?_) fun _ =>
      hown _
    · intro w hw
      obtain ⟨x, s⟩ := w
      rw [Step.on_bind, Step.on_ask]
      dsimp only
      cases hplan : s.plan x.staged with
      | error f => exact hw
      | ok ks => exact h s x.staged ks hw hplan
    · exact (hown _).bind fun _ => Step.keeps_throw f
  exact fun s hs => hcommit (x, s) hs

end SemanticNet
