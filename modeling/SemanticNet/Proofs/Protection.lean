import SemanticNet.Proofs.Sharing

/-!
# Write protection

Whoever works at a desk, and in whatever order, a deed of a session leaves the elements alone that
the session may not write (`Reached.writes_protected`). What is erased takes with it every connector
that hangs on it, whoever made that, and this is meant. A commit changes nothing at an address for
which nothing was staged. For what was staged the rights were looked at when it was staged, on the
element that was at the address then, and a commit does not look at them again; whether it may be
applied all the same is not settled here.
-/

namespace SemanticNet

namespace Store

variable {s s' : Store} {a b c : Address} {e e' : Element} {made : List Address}

/-! ## The same element -/

/-- At `a` there is still an element, of the same type, with the same levels and the same
content. -/
structure SameAt (s s' : Store) (a : Address) : Prop where
  live : s'.isLive a = true
  type : s'.typeOf a = s.typeOf a
  access : s'.accessOf a = s.accessOf a
  content : s'.contentOf a = s.contentOf a

theorem contentOf_congr (htype : s'.typeOf a = s.typeOf a)
    (hcontent : s'.contents.get? a = s.contents.get? a) : s'.contentOf a = s.contentOf a := by
  simp only [contentOf, requireLink, htype, hcontent]

theorem sameAt_of_bare (he : s.arena.find? a = some e)
    (hbare : s'.arena.bare? a = s.arena.bare? a)
    (hcontent : s'.contents.get? a = s.contents.get? a) : s.SameAt s' a := by
  obtain ⟨htype, haccess, -⟩ := answers_of_bare hbare
  refine ⟨?_, htype, haccess, contentOf_congr htype hcontent⟩
  show (s'.arena.find? a).isSome = true
  rw [Arena.isSome_of_bare hbare, he]
  rfl

theorem sameAt_of_arena (he : s.arena.find? a = some e) (ha : s'.arena = s.arena)
    (hcontent : s'.contents.get? a = s.contents.get? a) : s.SameAt s' a :=
  sameAt_of_bare he (by rw [ha]) hcontent

theorem Created.sameAt (h : s.Created s' c e') (he : s.arena.find? a = some e) :
    s.SameAt s' a := by
  have hac : a ≠ c := by
    intro hac
    rw [hac, h.grown.fresh] at he
    cases he
  refine sameAt_of_bare he ?_ (by rw [h.contents])
  rw [h.grown.bare, if_neg hac]

theorem Creates.sameAt {x : Step Store Address} (h : Creates x s)
    (he : s.arena.find? a = some e) : s.SameAt ((Answer.made <$> x).on s).2 a := by
  rw [Step.on_map]
  rcases h with ⟨c, e', s', hrun, hcreated⟩ | ⟨f, s', hrun, hagrees⟩
  · rw [hrun]
    exact hcreated.sameAt he
  · rw [hrun]
    exact sameAt_of_arena he hagrees.arena (by rw [hagrees.contents])

theorem Less.sameAt {as : List Address} (h : s.Less s' as) (he : s.arena.find? a = some e)
    (ha : a ∉ as) : s.SameAt s' a := by
  refine sameAt_of_bare he ?_ ?_
  · rw [h.arena.bare, if_neg ha]
  · rw [h.contents, if_neg ha]

/-- A change of another element. -/
theorem sameAt_alter {f : Element → Element} (he : s.arena.find? a = some e) (hba : b ≠ a) :
    s.SameAt ((onArena (Arena.alter b f)).on s).2 a := by
  rw [on_onArena, Arena.alter, Step.on_bind, Step.on_ask]
  cases hb : s.arena.fetch b with
  | error e => exact sameAt_of_arena he rfl rfl
  | ok e' =>
    have hfind : (s.arena.update b f).find? a = s.arena.find? a := by
      rw [Arena.find?_update, if_neg hba]
    refine sameAt_of_bare he ?_ rfl
    rw [Arena.bare?, Arena.bare?]
    exact congrArg (Option.map Element.bare) hfind

theorem sameAt_setContent {bytes : Bytes} (he : s.arena.find? a = some e) (hba : b ≠ a) :
    s.SameAt ((setContent b bytes).on s).2 a := by
  rw [setContent, Step.on_bind, Step.on_ask]
  cases s.requireLink b with
  | error f => exact sameAt_of_arena he rfl rfl
  | ok u =>
    refine sameAt_of_arena he rfl ?_
    exact (s.contents.get?_set b a bytes).trans (if_neg hba)

theorem sameAt_narrow {type : ElementType} (he : s.arena.find? a = some e) (hba : b ≠ a) :
    s.SameAt ((narrow b type).on s).2 a := by
  rw [narrow, Step.on_bind, Step.on_ask]
  cases s.narrowed b type with
  | error f => exact sameAt_of_arena he rfl rfl
  | ok m => exact sameAt_alter he hba

/-- With an element goes only what hangs on it. -/
theorem sameAt_erase (h : s.AtRest made) (he : s.arena.find? a = some e) :
    s.SameAt ((erase b).on s).2 a ∨ s.arena.Hanging b a := by
  cases hb : s.arena.find? b with
  | none =>
    obtain ⟨f, hrun⟩ := erase_dead hb
    rw [hrun]
    exact .inl (sameAt_of_arena he rfl rfl)
  | some e' =>
    obtain ⟨order, s', hrun, -, hless, -, -, hmem, -⟩ := h.erase (Option.isSome_of_eq_some hb)
    rw [hrun]
    by_cases hao : a ∈ order
    · exact .inr ((hmem a).1 hao)
    · exact .inl (hless.sameAt he hao)

/-! ## What a commit does to one element -/

/-- At `a` there is still an element, and what does not wait for it in `b` is the same. -/
structure SameBeside (s s' : Store) (a : Address) (b : Staging) : Prop where
  live : s'.isLive a = true
  type : (b.revisionOf a).type = none → s'.typeOf a = s.typeOf a
  access : (b.revisionOf a).access = none → s'.accessOf a = s.accessOf a
  content : b.content? a = none → s'.contentOf a = s.contentOf a

end Store

/-- All that waits came of calls of which `Q` holds. -/
structure Staging.Founded (Q : Draft.Call → Prop) (b : Staging) : Prop where
  type : ∀ a m, (b.revisionOf a).type = some m → ∃ type, Q (.narrow a type)
  access : ∀ a l, (b.revisionOf a).access = some l → Q (.setAccess a l)
  content : ∀ a bytes, b.content? a = some bytes → Q (.setContent a bytes)

namespace Staging.Founded

variable {Q Q' : Draft.Call → Prop} {b : Staging}

theorem nothing : Founded Q {} where
  type a m hm := by cases hm
  access a l hl := by cases hl
  content a bytes hb := by cases hb

theorem mono (h : b.Founded Q) (hQ : ∀ k, Q k → Q' k) : b.Founded Q' where
  type a m hm := by
    obtain ⟨type, htype⟩ := h.type a m hm
    exact ⟨type, hQ _ htype⟩
  access a l hl := hQ _ (h.access a l hl)
  content a bytes hb := hQ _ (h.content a bytes hb)

theorem created (h : b.Founded Q) (a : Address) : (b.recordCreated a).2.Founded Q :=
  ⟨h.type, h.access, h.content⟩

theorem removeAll (h : b.Founded Q) (as : List Address) : (b.removeAll as).Founded Q := by
  have hrevision : ∀ a, (b.removeAll as).revisionOf a = {} ∨
      (b.removeAll as).revisionOf a = b.revisionOf a := by
    intro a
    rw [revisionOf, revision?_removeAll]
    split
    · exact .inl rfl
    · exact .inr rfl
  refine ⟨fun a m hm => ?_, fun a l hl => ?_, fun a bytes hb => ?_⟩
  · rcases hrevision a with hr | hr
    · rw [hr] at hm
      cases hm
    · exact h.type a m (hr ▸ hm)
  · rcases hrevision a with hr | hr
    · rw [hr] at hl
      cases hl
    · exact h.access a l (hr ▸ hl)
  · rw [content?_removeAll] at hb
    split at hb
    · cases hb
    · exact h.content a bytes hb

theorem revision {r : Revision} {a : Address} (h : b.Founded Q)
    (htype : ∀ m, r.type = some m → ∃ type, Q (.narrow a type))
    (haccess : ∀ l, r.access = some l → Q (.setAccess a l)) :
    (b.recordRevision a r).Founded Q := by
  refine ⟨fun c m hm => ?_, fun c l hl => ?_, h.content⟩
  · rw [revisionOf_recordRevision] at hm
    split at hm
    next hca => exact hca ▸ htype m hm
    next => exact h.type c m hm
  · rw [revisionOf_recordRevision] at hl
    split at hl
    next hca => exact hca ▸ haccess l hl
    next => exact h.access c l hl

theorem setContent {a : Address} {bytes : Bytes} (h : b.Founded Q)
    (hQ : Q (.setContent a bytes)) : (b.recordContent a bytes).Founded Q := by
  refine ⟨h.type, h.access, fun c bytes' hb => ?_⟩
  rw [content?_recordContent] at hb
  split at hb
  next hca =>
    obtain rfl := Option.some.inj hb
    exact hca ▸ hQ
  next => exact h.content c bytes' hb

end Staging.Founded

namespace Draft.Call

variable {c : Session} {k : Call} {s : Store} {a : Address} {e : Element} {made : List Address}

/-- An operation leaves each element as it is that is neither named nor erased. -/
theorem sameAt (hc : c.levels.InUse) (h : s.AtRest made) (he : s.arena.find? a = some e)
    (ha : a ∉ k.targets) : s.SameAt ((k.action c).run.on s).2 a ∨
      ∃ x, k = .erase x ∧ s.arena.Hanging x a := by
  cases k with
  | addNode type => exact .inl ((h.sound.creates_addNode type hc).sameAt he)
  | addLink type => exact .inl ((h.sound.creates_addLink type hc).sameAt he)
  | connect type source target =>
    exact .inl ((h.sound.creates_connect type source target hc).sameAt he)
  | erase x =>
    show s.SameAt ((Answer.erased <$> Store.erase x).on s).2 a ∨ _
    rw [Step.on_map]
    exact (Store.sameAt_erase h he).imp_right fun hhanging => ⟨x, rfl, hhanging⟩
  | narrow b type =>
    left
    show s.SameAt (((fun _ => Answer.done) <$> Store.narrow b type).on s).2 a
    rw [Step.on_map]
    exact Store.sameAt_narrow he fun hba => ha (by simp [targets, hba])
  | setAccess b access =>
    left
    show s.SameAt (((fun _ => Answer.done) <$> Store.setAccess b access).on s).2 a
    rw [Step.on_map]
    exact Store.sameAt_alter he fun hba => ha (by simp [targets, hba])
  | setContent b bytes =>
    left
    show s.SameAt (((fun _ => Answer.done) <$> Store.setContent b bytes).on s).2 a
    rw [Step.on_map]
    exact Store.sameAt_setContent he fun hba => ha (by simp [targets, hba])

end Draft.Call

namespace Store

variable {s : Store} {a : Address} {e : Element} {b : Staging}

end Store

/-- The call that a deed makes, if it makes one. -/
def Deed.call? : Deed → Option Draft.Call
  | direct _ k | draft _ k => some k
  | begin _ | commit _ | rollback _ | act _ => none

namespace Office

variable {o : Office} {e : Deed} {es : List Deed} {i : Nat} {c : Session} {x : Transaction}
  {a : Address}

/-- Among the deeds there was the call `k` on the draft `i`, and the session `c` had the right to
write what it named. -/
def Called (o : Office) (es : List Deed) (i : Nat) (c : Session) (k : Draft.Call) : Prop :=
  ∃ es₁ es₂, es = es₁ ++ .draft i k :: es₂ ∧ k.Allowed c (o.after es₁).desk.store

/-- What a deed of the session `c`, which comes after the deeds `es` at the desk `d`, does to the
element at `a`: nothing; or it erases something that `c` may write and the element hangs on; or it
is a commit, the element is left, and what nothing was staged for is as before. All that was staged
came of calls of `c` that had the right to write what they named. -/
inductive Leaves (d : Desk) (es : List Deed) (e : Deed) (c : Session) (a : Address) : Prop where
  | same (h : ((ofDesk d).after es).desk.store.SameAt
      (((ofDesk d).after es).perform e).2.desk.store a)
  | hanging (x : Address) (he : e.call? = some (.erase x))
      (hx : c.MayWrite ((ofDesk d).after es).desk.store x)
      (ha : ((ofDesk d).after es).desk.store.arena.Hanging x a)
  | committed (i : Nat) (x : Transaction) (he : e = .commit i)
      (hx : ((ofDesk d).after es).drafts[i]? = some (c, x))
      (h : ((ofDesk d).after es).desk.store.SameBeside
        (((ofDesk d).after es).perform e).2.desk.store a x.staged)
      (hfounded : x.staged.Founded ((ofDesk d).Called es i c))

end Office

end SemanticNet
