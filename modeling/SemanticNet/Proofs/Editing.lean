import SemanticNet.Proofs.Creation
import SemanticNet.Store.Edit
import SemanticNet.Transaction

/-!
# Editing

A store at rest is sound, and no element of it is being erased. Narrowing a type, changing levels,
setting a content and committing a transaction keep a store at rest (`AtRest.commit`).
-/

namespace SemanticNet

/-- The levels that are staged are in use. -/
def Staging.InUse (b : Staging) : Prop := ∀ p ∈ b.revisions, ∀ l ∈ p.2.access, l.InUse

namespace Store

variable {s s' : Store} {a b c : Address} {e : Element} {made : List Address}
  {type m : ElementType} {access : Access}

/-- A store between two of its operations. -/
structure AtRest (made : List Address) (s : Store) : Prop where
  sound : s.Sound made
  calm : s.Calm

theorem AtRest.agrees (h : s.AtRest made) (ha : s.Agrees s') : s'.AtRest made :=
  ⟨h.sound.agrees ha, h.calm.agrees ha⟩

theorem AtRest.created (h : s.AtRest made) (hc : s.Created s' c e) : s'.AtRest (c :: made) :=
  ⟨h.sound.created hc, h.calm.created hc⟩

theorem atRest_ofSettings (c : Settings) : (ofSettings c).AtRest [] :=
  ⟨sound_ofSettings c, calm_ofSettings c⟩

/-! ## Single changes -/

/-- A change that the store takes: the type is of the same mould, the levels are in use. -/
def Takes (s : Store) : Change → Prop
  | .setType a m => (s.arena.find? a).map (·.type.mould) = some m.mould
  | .setAccess _ l => l.InUse
  | .setContent _ _ => True

/-- An element may be changed as long as its threads, its mould and its mark stay. -/
theorem AtRest.alter {f : Element → Element} (h : s.AtRest made)
    (hf : ∀ e, s.arena.find? a = some e → e.Resembles (f e) ∧ (f e).erasing = e.erasing) :
    ((onArena (Arena.alter a f)).on s).2.AtRest made := by
  rw [on_onArena, Arena.alter, Step.on_bind, Step.on_ask]
  cases ha : s.arena.find? a with
  | none =>
    rw [Arena.fetch, ha]
    exact h
  | some e =>
    rw [Arena.fetch, ha]
    have hfind : ∀ b, (s.arena.update a f).find? b
        = (s.arena.find? b).map fun e => if a = b then f e else e := by
      intro b
      rw [Arena.find?_update]
      split <;> simp
    refine ⟨h.sound.of_map (h.sound.tidy.update a f) hfind fun b e he => ?_, fun b e' he' => ?_⟩
    · split
      next hab =>
        subst hab
        exact (hf e he).1
      next => exact ⟨rfl, rfl, h.sound.proper b e he⟩
    · have hmem := (hfind b).symm.trans he'
      obtain ⟨e, he, rfl⟩ := Option.map_eq_some_iff.1 hmem
      split
      next hab =>
        subst hab
        exact (hf e he).2.trans (h.calm a e he)
      next => exact h.calm b e he

theorem AtRest.setType (h : s.AtRest made) (hm : s.Takes (.setType a m)) :
    ((onArena (Arena.alter a ({ · with type := m }))).on s).2.AtRest made := by
  refine h.alter fun e he => ⟨?_, rfl⟩
  have hmould : m.mould = e.type.mould := by
    rw [Takes, he] at hm
    exact (Option.some.inj hm).symm
  have hp := h.sound.proper a e he
  refine ⟨?_, hmould, ⟨?_, ?_, hp.flags, hp.access⟩⟩
  · simp only [Element.threads, ElementType.isCommonEdge_of_mould hmould]
  · rw [ElementType.isConnector_of_mould hmould]
    exact hp.connection
  · rw [ElementType.kind_of_mould hmould]
    exact hp.kind

theorem AtRest.setAccess (h : s.AtRest made) (hl : access.InUse) :
    ((setAccess a access).on s).2.AtRest made := by
  refine h.alter fun e he => ⟨⟨rfl, rfl, ?_⟩, rfl⟩
  have hp := h.sound.proper a e he
  exact ⟨hp.connection, hp.kind, hp.flags, hl⟩

theorem requireLink_ok (h : s.requireLink a = .ok ()) : s.arena.isLinkAt a = true := by
  rw [Arena.isLinkAt]
  cases he : s.arena.find? a with
  | none => simp [requireLink, typeOf, Arena.fetch, he, bind, Except.bind] at h
  | some e =>
    cases hl : e.type.isLink with
    | true => simp [hl]
    | false =>
      simp [requireLink, typeOf, Arena.fetch, he, hl, bind, Except.bind, pure, Except.pure, throw,
        throwThe, MonadExceptOf.throw] at h

theorem AtRest.setContent (h : s.AtRest made) (a : Address) (bytes : Bytes) :
    ((setContent a bytes).on s).2.AtRest made := by
  rw [Store.setContent, Step.on_bind, Step.on_ask]
  cases hl : s.requireLink a with
  | error f => exact h
  | ok u =>
    refine ⟨⟨h.sound.tidy, h.sound.wired, h.sound.proper, fun b hb => ?_, h.sound.census⟩, h.calm⟩
    have hget := s.contents.get?_set a b bytes
    have hb' : ((s.contents.set a bytes).get? b).isSome := hb
    rw [hget] at hb'
    split at hb'
    next hab =>
      subst hab
      exact requireLink_ok hl
    next => exact h.sound.contents b hb'

/-- The type of a live element is narrowed, or the types do not fit. -/
theorem narrowed_of_find? (he : s.arena.find? a = some e) :
    s.narrowed a type = match e.type.narrow? type with
      | some m => .ok m
      | none => .error (.invalidType .notNarrower) := by
  rw [narrowed, typeOf, Arena.fetch, he]
  rfl

theorem narrowed_ok_iff : s.narrowed a type = .ok m ↔
    ∃ e, s.arena.find? a = some e ∧ e.type.narrow? type = some m := by
  cases he : s.arena.find? a with
  | none => simp [narrowed, typeOf, Arena.fetch, he, bind, Except.bind]
  | some e =>
    rw [narrowed_of_find? he]
    cases hm : e.type.narrow? type <;> simp [hm]

/-- The mould of a type that was narrowed is that of the element's type. -/
theorem AtRest.takes_of_narrowed (h : s.AtRest made) (hm : s.narrowed a type = .ok m) :
    s.Takes (.setType a m) := by
  obtain ⟨e, he, hn⟩ := narrowed_ok_iff.1 hm
  rw [Takes, he, ElementType.mould_of_narrow? hn (h.sound.proper a e he).kind]
  rfl

theorem AtRest.narrow (h : s.AtRest made) (a : Address) (type : ElementType) :
    ((narrow a type).on s).2.AtRest made := by
  rw [Store.narrow, Step.on_bind, Step.on_ask]
  cases hm : s.narrowed a type with
  | error f => exact h
  | ok m => exact h.setType (h.takes_of_narrowed hm)

/-! ## Several changes -/

theorem map_outline_alter {f : Element → Element}
    (hf : ∀ e, s.arena.find? a = some e → (f e).outline = e.outline) :
    (((onArena (Arena.alter a f)).on s).2.arena.find? b).map Element.outline
      = (s.arena.find? b).map Element.outline := by
  rw [on_onArena, Arena.alter, Step.on_bind, Step.on_ask]
  cases he : s.arena.find? a with
  | none => rw [Arena.fetch, he]
  | some e =>
    rw [Arena.fetch, he]
    simp only [Step.on_change, Arena.find?_update]
    split
    next hab =>
      subst hab
      simp [he, hf e he]
    next => rfl

/-- A change that the store takes leaves every outline as it is. -/
theorem map_outline_apply {k : Change} (hk : s.Takes k) :
    (((apply k).on s).2.arena.find? b).map Element.outline
      = (s.arena.find? b).map Element.outline := by
  cases k with
  | setType a m =>
    refine map_outline_alter fun e he => Element.outline_retint ?_
    rw [Takes, he] at hk
    exact (Option.some.inj hk).symm
  | setAccess a l => exact map_outline_alter fun e he => rfl
  | setContent a bytes =>
    rw [apply, Store.setContent, Step.on_bind, Step.on_ask]
    cases s.requireLink a <;> rfl

theorem map_mould_apply {k : Change} (hk : s.Takes k) :
    (((apply k).on s).2.arena.find? b).map (·.type.mould)
      = (s.arena.find? b).map (·.type.mould) := by
  have houtline := congrArg (Option.map Prod.snd) (map_outline_apply (b := b) hk)
  rwa [Option.map_map, Option.map_map] at houtline

theorem takes_apply {k l : Change} (hk : s.Takes k) (hl : s.Takes l) :
    ((apply k).on s).2.Takes l := by
  cases l with
  | setType a m =>
    rw [Takes, map_mould_apply hk]
    exact hl
  | setAccess a l => exact hl
  | setContent a bytes => trivial

theorem AtRest.apply {k : Change} (h : s.AtRest made) (hk : s.Takes k) :
    ((apply k).on s).2.AtRest made := by
  cases k with
  | setType a m => exact h.setType hk
  | setAccess a l => exact h.setAccess hk
  | setContent a bytes => exact h.setContent a bytes

/-- Whether all of the changes are applied or one fails on the way, the store stays at rest. -/
theorem AtRest.applyAll {ks : List Change} (h : s.AtRest made) (hk : ∀ k ∈ ks, s.Takes k) :
    ((applyAll ks).on s).2.AtRest made := by
  induction ks generalizing s with
  | nil => exact h
  | cons k ks ih =>
    have hhead := hk k List.mem_cons_self
    have hnext := h.apply hhead
    have htakes : ∀ l ∈ ks, ((Store.apply k).on s).2.Takes l := fun l hl =>
      takes_apply hhead (hk l (List.mem_cons_of_mem k hl))
    rw [Store.applyAll, Step.on_bind]
    match hrun : (Store.apply k).on s with
    | (.ok u, s₁) =>
      rw [hrun] at hnext htakes
      exact ih hnext htakes
    | (.error f, s₁) =>
      rw [hrun] at hnext
      exact hnext

theorem map_outline_applyAll {ks : List Change} (hk : ∀ k ∈ ks, s.Takes k) :
    (((applyAll ks).on s).2.arena.find? b).map Element.outline
      = (s.arena.find? b).map Element.outline := by
  induction ks generalizing s with
  | nil => rfl
  | cons k ks ih =>
    have hhead := hk k List.mem_cons_self
    have hsame := map_outline_apply (b := b) hhead
    have htakes : ∀ l ∈ ks, ((Store.apply k).on s).2.Takes l := fun l hl =>
      takes_apply hhead (hk l (List.mem_cons_of_mem k hl))
    rw [Store.applyAll, Step.on_bind]
    match hrun : (Store.apply k).on s with
    | (.ok u, s₁) =>
      rw [hrun] at hsame htakes
      exact (ih htakes).trans hsame
    | (.error f, s₁) =>
      rw [hrun] at hsame
      exact hsame

/-! ## Plans -/

theorem AtRest.takes_planRevision {r : Revision} {ks : List Change} (h : s.AtRest made)
    (hr : ∀ l ∈ r.access, l.InUse) (hks : s.planRevision a r = .ok ks) : ∀ k ∈ ks, s.Takes k := by
  have haccess : ∀ k ∈ r.access.toList.map (Change.setAccess a), s.Takes k := by
    intro k hk
    obtain ⟨l, hl, rfl⟩ := List.mem_map.1 hk
    exact hr l (by simpa using hl)
  rw [planRevision] at hks
  intro k hk
  cases htype : r.type with
  | none =>
    rw [htype] at hks
    obtain ⟨_, -, hrest⟩ := bind_eq_ok_iff.1 hks
    obtain rfl := Except.ok.inj hrest
    exact haccess k hk
  | some type =>
    rw [htype] at hks
    obtain ⟨m, hm, hrest⟩ := bind_eq_ok_iff.1 hks
    obtain rfl := Except.ok.inj hrest
    rcases List.mem_cons.1 hk with rfl | hk
    · exact h.takes_of_narrowed hm
    · exact haccess k hk

theorem AtRest.takes_planRevisions {rs : List (Address × Revision)} {ks : List Change}
    (h : s.AtRest made) (hr : ∀ p ∈ rs, ∀ l ∈ p.2.access, l.InUse)
    (hks : s.planRevisions rs = .ok ks) : ∀ k ∈ ks, s.Takes k := by
  induction rs generalizing ks with
  | nil =>
    obtain rfl := Except.ok.inj hks
    simp
  | cons p rs ih =>
    rw [planRevisions, bind_eq_ok_iff] at hks
    obtain ⟨ks₁, hks₁, hrest⟩ := hks
    obtain ⟨ks₂, hks₂, hall⟩ := bind_eq_ok_iff.1 hrest
    obtain rfl := Except.ok.inj hall
    intro k hk
    rcases List.mem_append.1 hk with hk | hk
    · exact h.takes_planRevision (hr p List.mem_cons_self) hks₁ k hk
    · exact ih (fun q hq => hr q (List.mem_cons_of_mem p hq)) hks₂ k hk

theorem takes_planContents {cs : List (Address × Bytes)} {ks : List Change}
    (hks : s.planContents cs = .ok ks) : ∀ k ∈ ks, s.Takes k := by
  induction cs generalizing ks with
  | nil =>
    obtain rfl := Except.ok.inj hks
    simp
  | cons p cs ih =>
    obtain ⟨u, -, hrest⟩ := bind_eq_ok_iff.1 hks
    obtain ⟨ks₂, hks₂, hall⟩ := bind_eq_ok_iff.1 hrest
    obtain rfl := Except.ok.inj hall
    intro k hk
    rcases List.mem_cons.1 hk with rfl | hk
    · trivial
    · exact ih hks₂ k hk

/-- The store takes every change that it has planned. -/
theorem AtRest.takes_plan {b : Staging} {ks : List Change} (h : s.AtRest made) (hb : b.InUse)
    (hks : s.plan b = .ok ks) : ∀ k ∈ ks, s.Takes k := by
  rw [plan, bind_eq_ok_iff] at hks
  obtain ⟨ks₁, hks₁, hrest⟩ := hks
  obtain ⟨ks₂, hks₂, hall⟩ := bind_eq_ok_iff.1 hrest
  obtain rfl := Except.ok.inj hall
  intro k hk
  rcases List.mem_append.1 hk with hk | hk
  · exact h.takes_planRevisions hb hks₁ k hk
  · exact takes_planContents hks₂ k hk

/-- A commit, whether it succeeds or not, leaves a store at rest. -/
theorem AtRest.commit {x : Transaction} (h : s.AtRest made) (hx : x.staged.InUse) :
    (Transaction.commit.on (x, s)).2.2.AtRest made := by
  have hkeeps : Step.Keeps (fun w : Work => w.2.AtRest made ∧ w.1.staged.InUse)
      Transaction.commit := by
    -- what is staged is needed for the plan only, but every part has to keep it
    refine Step.Keeps.bind (fun w hw => hw) fun _ => Step.Keeps.bind (Step.Keeps.tryCatch ?_ ?_) ?_
    · rintro ⟨x, s⟩ hw
      rw [Step.on_bind, Step.on_ask]
      dsimp only
      cases hplan : s.plan x.staged with
      | error f => exact hw
      | ok ks => exact ⟨hw.1.applyAll (hw.1.takes_plan hw.2 hplan), hw.2⟩
    · exact fun f => Step.Keeps.bind (fun w hw => hw) fun _ => Step.keeps_throw f
    · -- nothing is staged any more
      exact fun _ w hw => ⟨hw.1, fun p hp => absurd hp List.not_mem_nil⟩
  exact (hkeeps (x, s) ⟨h, hx⟩).1

end Store

end SemanticNet
