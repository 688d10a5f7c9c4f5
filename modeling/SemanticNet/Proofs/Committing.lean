import SemanticNet.ElementType.Catalogue
import SemanticNet.Proofs.Mapping
import SemanticNet.Proofs.Runs

/-!
# Commits

A commit applies everything that a transaction has staged (`Store.committed`), if the store accepts
it (`Store.Accepts`); otherwise the store and what is staged stay as they are. No change of a plan
is in the way of a later one: revisions are of different elements, and a link whose type has been
narrowed is a link.
-/

namespace SemanticNet

namespace Assoc

variable {α β : Type} [DecidableEq α] {k l : α} {v : β} {kvs : List (α × β)}

theorem mem_keys_put : l ∈ (put k v kvs).map Prod.fst ↔ l = k ∨ l ∈ kvs.map Prod.fst := by
  induction kvs with
  | nil => simp [put]
  | cons p rest ih =>
    rw [put]
    split
    next h => simp [h]
    next => rw [List.map_cons, List.mem_cons, ih, List.map_cons, List.mem_cons, or_left_comm]

theorem nodup_put (h : (kvs.map Prod.fst).Nodup) : ((put k v kvs).map Prod.fst).Nodup := by
  induction kvs with
  | nil => simp [put]
  | cons p rest ih =>
    rw [List.map_cons, List.nodup_cons] at h
    rw [put]
    split
    next heq => rw [List.map_cons, List.nodup_cons, ← heq]; exact h
    next hne =>
      rw [List.map_cons, List.nodup_cons, mem_keys_put]
      exact ⟨not_or_intro hne h.1, ih h.2⟩

theorem nodup_drop (h : (kvs.map Prod.fst).Nodup) : ((drop k kvs).map Prod.fst).Nodup :=
  h.sublist ((List.filter_sublist).map _)

theorem lookup_eq_none (h : k ∉ kvs.map Prod.fst) : kvs.lookup k = none := by
  induction kvs with
  | nil => rfl
  | cons p rest ih =>
    obtain ⟨m, w⟩ := p
    rw [List.map_cons, List.mem_cons, not_or] at h
    rw [lookup_cons_eq, if_neg h.1, ih h.2]

/-- In a list that has each key once, the pairs are those that are found. -/
theorem mem_iff_lookup (h : (kvs.map Prod.fst).Nodup) : (k, v) ∈ kvs ↔ kvs.lookup k = some v := by
  induction kvs with
  | nil => simp
  | cons p rest ih =>
    obtain ⟨m, w⟩ := p
    rw [List.map_cons, List.nodup_cons] at h
    rw [List.mem_cons, lookup_cons_eq, ih h.2]
    split
    next hk =>
      subst hk
      simp [lookup_eq_none h.1, eq_comm]
    next hk => simp [hk]

end Assoc

namespace Staging

variable {b : Staging}

/-- What transactions may have staged: what comes of recording, in any order, whatever is given. -/
inductive Recorded : Staging → Prop where
  | nothing : Recorded {}
  | created {b : Staging} (a : Address) (h : Recorded b) : Recorded (b.recordCreated a).2
  | removed {b : Staging} (a : Address) (h : Recorded b) : Recorded (b.recordRemoved a).2
  | revision {b : Staging} (a : Address) (r : Revision) (h : Recorded b) :
      Recorded (b.recordRevision a r)
  | content {b : Staging} (a : Address) (bytes : Bytes) (h : Recorded b) :
      Recorded (b.recordContent a bytes)

/-- For an address there waits one revision at most, and one content. -/
structure Distinct (b : Staging) : Prop where
  revisions : (b.revisions.map Prod.fst).Nodup
  contents : (b.contents.map Prod.fst).Nodup

theorem Recorded.distinct (h : b.Recorded) : b.Distinct := by
  induction h with
  | nothing => exact ⟨List.nodup_nil, List.nodup_nil⟩
  | created a _ ih => exact ⟨ih.revisions, ih.contents⟩
  | removed a _ ih => exact ⟨Assoc.nodup_drop ih.revisions, Assoc.nodup_drop ih.contents⟩
  | revision a r _ ih => exact ⟨Assoc.nodup_put ih.revisions, ih.contents⟩
  | content a bytes _ ih => exact ⟨ih.revisions, Assoc.nodup_put ih.contents⟩

/-- What waits for an element, with nothing for what does not change. -/
def revisionOf (b : Staging) (a : Address) : Revision := (b.revision? a).getD {}

end Staging

/-- The element with its type narrowed and its levels replaced, as far as that is asked for. -/
def Element.revised (r : Revision) (e : Element) : Element :=
  { e with
    type := (r.type.bind e.type.narrow?).getD e.type
    access := r.access.getD e.access }

theorem Arena.fetch_ok_iff {t : Arena} {a : Address} {e : Element} :
    t.fetch a = .ok e ↔ t.find? a = some e := by
  rw [fetch]
  cases t.find? a <;> simp

namespace Store

variable {s s' : Store} {a : Address} {e : Element} {r : Revision} {ks : List Change}

theorem typeOf_ok_iff {type : ElementType} :
    s.typeOf a = .ok type ↔ ∃ e, s.arena.find? a = some e ∧ e.type = type := by
  simp only [typeOf, bind_eq_ok_iff, Arena.fetch_ok_iff, pure, Except.pure, Except.ok.injEq]

theorem accessOf_ok_iff {access : Access} :
    s.accessOf a = .ok access ↔ ∃ e, s.arena.find? a = some e ∧ e.access = access := by
  simp only [accessOf, bind_eq_ok_iff, Arena.fetch_ok_iff, pure, Except.pure, Except.ok.injEq]

theorem requireLink_iff : s.requireLink a = .ok () ↔ s.arena.isLinkAt a = true := by
  refine ⟨requireLink_ok, fun h => ?_⟩
  obtain ⟨e, he, hlink⟩ := (Option.any_eq_true _ _).1 h
  rw [requireLink, typeOf_ok_iff.2 ⟨e, he, rfl⟩]
  simp [hlink, bind, Except.bind, pure, Except.pure]

theorem contentOf_ok_iff {content : Option Bytes} :
    s.contentOf a = .ok content ↔ s.arena.isLinkAt a = true ∧ s.contents.get? a = content := by
  simp only [contentOf, bind_eq_ok_iff, pure, Except.pure, Except.ok.injEq, ← requireLink_iff]
  exact ⟨fun ⟨_, h⟩ => h, fun h => ⟨(), h⟩⟩

/-- The element at `a` is live, and its type can be narrowed as the revision asks for. -/
def Suits (s : Store) (a : Address) (r : Revision) : Prop :=
  ∃ e, s.arena.find? a = some e ∧ ∀ m ∈ r.type, (e.type.narrow? m).isSome

/-- Every revision is of a live element whose type can be narrowed so, and every content is for a
live link. -/
structure Accepts (s : Store) (b : Staging) : Prop where
  revisions : ∀ a r, (a, r) ∈ b.revisions → s.Suits a r
  contents : ∀ a bytes, (a, bytes) ∈ b.contents → s.arena.isLinkAt a = true

/-- The store with everything applied that is staged. -/
def committed (s : Store) (b : Staging) : Store :=
  { s with
    arena := s.arena.map fun a e => e.revised (b.revisionOf a)
    contents := b.contents.foldl (fun c p => c.set p.1 p.2) s.contents }

/-! ## Revisions -/

/-- The changes that a revision of the element `e` at `a` comes to. -/
def changesOf (a : Address) (e : Element) (r : Revision) : List Change :=
  (r.type.bind e.type.narrow?).toList.map (.setType a) ++ r.access.toList.map (.setAccess a)

theorem planRevision_ok_iff : s.planRevision a r = .ok ks ↔ ∃ e, s.arena.find? a = some e ∧
    (∀ m ∈ r.type, (e.type.narrow? m).isSome) ∧ changesOf a e r = ks := by
  obtain ⟨type, access⟩ := r
  cases type with
  | none =>
    simp only [planRevision, bind_eq_ok_iff, typeOf_ok_iff, pure, Except.pure, Except.ok.injEq]
    constructor
    · rintro ⟨_, ⟨e, he, -⟩, _, rfl, hks⟩
      exact ⟨e, he, by simp, hks⟩
    · rintro ⟨e, he, -, hks⟩
      exact ⟨e.type, ⟨e, he, rfl⟩, [], rfl, hks⟩
  | some m =>
    simp only [planRevision, bind_eq_ok_iff, narrowed_ok_iff, pure, Except.pure, Except.ok.injEq]
    constructor
    · rintro ⟨m', ⟨e, he, hm⟩, hks⟩
      refine ⟨e, he, ?_, ?_⟩
      · rintro _ ⟨rfl⟩
        exact Option.isSome_of_eq_some hm
      · simpa [changesOf, hm] using hks
    · rintro ⟨e, he, hsome, hks⟩
      obtain ⟨m', hm⟩ := Option.isSome_iff_exists.1 (hsome m rfl)
      exact ⟨m', ⟨e, he, hm⟩, by simpa [changesOf, hm] using hks⟩

theorem applyAll_append (ks ls : List Change) :
    applyAll (ks ++ ls) = (do applyAll ks; applyAll ls) := by
  induction ks with
  | nil => rfl
  | cons k ks ih => simp only [List.cons_append, applyAll, ih, bind_assoc]

theorem on_alter {f : Element → Element} (he : s.arena.find? a = some e) :
    (onArena (Arena.alter a f)).on s = (.ok (), { s with arena := s.arena.update a f }) := by
  rw [on_onArena, Arena.alter, Step.on_bind, Step.on_ask, Arena.fetch, he]
  rfl

/-- The changes that a revision comes to, one after the other, revise the element. -/
theorem applyAll_changesOf (ht : s.arena.Tidy) (he : s.arena.find? a = some e) :
    (applyAll (changesOf a e r)).on s
      = (.ok (), { s with arena := s.arena.update a (·.revised r) }) := by
  have hsame : ∀ {f : Element → Element}, f e = e.revised r →
      s.arena.update a f = s.arena.update a (·.revised r) := fun hf => by
    rw [ht.update_eq_map, ht.update_eq_map]
    refine ht.map_congr fun b e' he' => ?_
    split
    next hab =>
      subst hab
      obtain rfl := Option.some.inj (he.symm.trans he')
      exact hf
    next => rfl
  have htwice : ∀ {f g : Element → Element}, (s.arena.update a f).update a g
      = s.arena.update a fun e => g (f e) := fun {f g} => by
    rw [ht.update_eq_map, ht.map_update, ht.update_eq_map]
    exact ht.map_congr fun b e' _ => by split <;> rfl
  have hid : s.arena.update a (fun e => e) = s.arena := by
    rw [ht.update_eq_map]
    exact ht.map_eq_self fun b e' _ => by split <;> rfl
  cases hx : r.type.bind e.type.narrow? with
  | none =>
    cases hy : r.access with
    | none =>
      simp only [changesOf, hx, hy, Option.toList_none, List.map_nil, List.append_nil, applyAll]
      rw [← hsame (f := fun e => e) (by simp [Element.revised, hx, hy]), hid]
      rfl
    | some l =>
      simp only [changesOf, hx, hy, Option.toList_none, Option.toList_some, List.map_cons,
        List.map_nil, List.nil_append, applyAll, apply, setAccess, Step.on_bind, on_alter he]
      rw [← hsame (f := ({ · with access := l })) (by simp [Element.revised, hx, hy])]
      rfl
  | some m =>
    cases hy : r.access with
    | none =>
      simp only [changesOf, hx, hy, Option.toList_none, Option.toList_some, List.map_cons,
        List.map_nil, List.append_nil, applyAll, apply, Step.on_bind, on_alter he]
      rw [← hsame (f := ({ · with type := m })) (by simp [Element.revised, hx, hy])]
      rfl
    | some l =>
      have he' : ({ s with arena := s.arena.update a ({ · with type := m }) } : Store).arena.find? a
          = some { e with type := m } := by
        simp [Arena.find?_update, he]
      simp only [changesOf, hx, hy, Option.toList_some, List.map_cons, List.map_nil,
        List.cons_append, List.nil_append, applyAll, apply, setAccess, Step.on_bind, on_alter he,
        on_alter he']
      rw [htwice, ← hsame (f := fun e => { e with type := m, access := l })
        (by simp [Element.revised, hx, hy])]
      rfl

theorem planRevisions_cons_ok_iff {p : Address × Revision} {rs : List (Address × Revision)} :
    s.planRevisions (p :: rs) = .ok ks ↔ ∃ ks₁ ks₂, s.planRevision p.1 p.2 = .ok ks₁ ∧
      s.planRevisions rs = .ok ks₂ ∧ ks₁ ++ ks₂ = ks := by
  rw [planRevisions, bind_eq_ok_iff]
  simp only [bind_eq_ok_iff, pure, Except.pure, Except.ok.injEq]
  constructor
  · rintro ⟨ks₁, h₁, ks₂, h₂, h⟩
    exact ⟨ks₁, ks₂, h₁, h₂, h⟩
  · rintro ⟨ks₁, ks₂, h₁, h₂, h⟩
    exact ⟨ks₁, h₁, ks₂, h₂, h⟩

theorem planRevisions_ok_iff {rs : List (Address × Revision)} :
    (∃ ks, s.planRevisions rs = .ok ks) ↔ ∀ a r, (a, r) ∈ rs → s.Suits a r := by
  induction rs with
  | nil => simp [planRevisions, pure, Except.pure]
  | cons p rs ih =>
    simp only [planRevisions_cons_ok_iff, planRevision_ok_iff, List.mem_cons]
    constructor
    · rintro ⟨ks, ks₁, ks₂, ⟨e, he, hm, -⟩, h₂, -⟩ a r (rfl | hmem)
      · exact ⟨e, he, hm⟩
      · exact ih.1 ⟨ks₂, h₂⟩ a r hmem
    · intro h
      obtain ⟨e, he, hm⟩ := h p.1 p.2 (.inl rfl)
      obtain ⟨ks₂, h₂⟩ := ih.2 fun a r hmem => h a r (.inr hmem)
      exact ⟨_, _, ks₂, ⟨e, he, hm, rfl⟩, h₂, rfl⟩

/-- Revisions that were planned in `s` are applied in any store that has the elements concerned as
they were. -/
theorem applyAll_planRevisions {rs : List (Address × Revision)} (hks : s.planRevisions rs = .ok ks)
    (hd : (rs.map Prod.fst).Nodup) (ht : s'.arena.Tidy)
    (hsame : ∀ a ∈ rs.map Prod.fst, s'.arena.find? a = s.arena.find? a) :
    (applyAll ks).on s' = (.ok (), { s' with
      arena := s'.arena.map fun a e => e.revised ((rs.lookup a).getD {}) }) := by
  induction rs generalizing ks s' with
  | nil =>
    obtain rfl := Except.ok.inj hks
    have hid : s'.arena.map (fun a e =>
        e.revised ((List.lookup a ([] : List (Address × Revision))).getD {})) = s'.arena :=
      ht.map_eq_self fun _ _ _ => rfl
    rw [hid]
    rfl
  | cons p rs ih =>
    obtain ⟨a, r⟩ := p
    obtain ⟨ks₁, ks₂, h₁, h₂, rfl⟩ := planRevisions_cons_ok_iff.1 hks
    obtain ⟨e, he, -, rfl⟩ := planRevision_ok_iff.1 h₁
    rw [List.map_cons, List.nodup_cons] at hd
    have hsame₁ : ∀ b ∈ rs.map Prod.fst,
        ({ s' with arena := s'.arena.update a (·.revised r) } : Store).arena.find? b
          = s.arena.find? b := by
      intro b hb
      have hba : a ≠ b := fun h => hd.1 (h ▸ hb)
      rw [Arena.find?_update, if_neg hba]
      exact hsame b (List.mem_cons_of_mem _ hb)
    have hnext := ih h₂ hd.2 (ht.update a _) hsame₁
    have hat := (hsame a List.mem_cons_self).trans he
    rw [applyAll_append, Step.on_bind, applyAll_changesOf ht hat]
    dsimp only
    rw [hnext]
    -- the rest of the revisions leaves the first element as it is
    have hmap : (s'.arena.update a (·.revised r)).map
          (fun b e => e.revised ((rs.lookup b).getD {}))
        = s'.arena.map fun b e => e.revised ((((a, r) :: rs).lookup b).getD {}) := by
      rw [ht.update_eq_map, ht.map_map]
      refine ht.map_congr fun b e' _ => ?_
      rw [Assoc.lookup_cons_eq]
      by_cases hab : a = b
      · subst hab
        rw [if_pos rfl, if_pos rfl, Assoc.lookup_eq_none hd.1]
        rfl
      · rw [if_neg hab, if_neg (Ne.symm hab)]
    rw [hmap]

/-! ## Contents -/

theorem planContents_ok_iff {cs : List (Address × Bytes)} : s.planContents cs = .ok ks ↔
    (∀ p ∈ cs, s.arena.isLinkAt p.1 = true) ∧ cs.map (fun p => .setContent p.1 p.2) = ks := by
  induction cs generalizing ks with
  | nil => simp [planContents, pure, Except.pure]
  | cons p cs ih =>
    rw [planContents, bind_eq_ok_iff]
    simp only [bind_eq_ok_iff, pure, Except.pure, Except.ok.injEq, ih, List.forall_mem_cons,
      List.map_cons]
    constructor
    · rintro ⟨⟨⟩, hp, _, ⟨hcs, rfl⟩, rfl⟩
      exact ⟨⟨requireLink_ok hp, hcs⟩, rfl⟩
    · rintro ⟨⟨hp, hcs⟩, rfl⟩
      exact ⟨(), requireLink_iff.2 hp, _, ⟨hcs, rfl⟩, rfl⟩

theorem applyAll_contents {cs : List (Address × Bytes)}
    (hlinks : ∀ p ∈ cs, s.arena.isLinkAt p.1 = true) :
    (applyAll (cs.map fun p => .setContent p.1 p.2)).on s
      = (.ok (), { s with contents := cs.foldl (fun c p => c.set p.1 p.2) s.contents }) := by
  induction cs generalizing s with
  | nil => rfl
  | cons p cs ih =>
    have hp := requireLink_iff.2 (hlinks p List.mem_cons_self)
    have hnext := ih (s := { s with contents := s.contents.set p.1 p.2 }) fun q hq =>
      hlinks q (List.mem_cons_of_mem p hq)
    rw [List.map_cons, applyAll, Step.on_bind, apply, setContent, Step.on_bind, Step.on_ask, hp]
    exact hnext

/-! ## Whole plans -/

theorem isLink_revised : (e.revised r).type.isLink = e.type.isLink := by
  cases hm : r.type.bind e.type.narrow? with
  | none => simp [Element.revised, hm]
  | some m =>
    obtain ⟨m', -, hnarrow⟩ := Option.bind_eq_some_iff.1 hm
    have hlink := ElementType.isLink_of_narrow? hnarrow
    simpa [Element.revised, hm] using hlink

theorem isLinkAt_committed {b : Staging} :
    (s.committed b).arena.isLinkAt a = s.arena.isLinkAt a := by
  simp only [Arena.isLinkAt, committed, Arena.find?_map, Option.any_map,
    isLink_revised]

theorem plan_ok_iff {b : Staging} : (∃ ks, s.plan b = .ok ks) ↔ s.Accepts b := by
  rw [plan]
  simp only [bind_eq_ok_iff, pure, Except.pure, Except.ok.injEq, planContents_ok_iff]
  constructor
  · rintro ⟨-, ks₁, h₁, -, ⟨hlinks, -⟩, -⟩
    exact ⟨planRevisions_ok_iff.1 ⟨ks₁, h₁⟩, fun a bytes hmem => hlinks (a, bytes) hmem⟩
  · rintro ⟨hrevisions, hcontents⟩
    obtain ⟨ks₁, h₁⟩ := planRevisions_ok_iff.2 hrevisions
    exact ⟨_, ks₁, h₁, _, ⟨fun p hp => hcontents p.1 p.2 hp, rfl⟩, rfl⟩

/-- Applying a plan can not fail, and does what is staged. -/
theorem applyAll_plan {b : Staging} (ht : s.arena.Tidy) (hd : b.Distinct)
    (hks : s.plan b = .ok ks) : (applyAll ks).on s = (.ok (), s.committed b) := by
  rw [plan, bind_eq_ok_iff] at hks
  obtain ⟨ks₁, h₁, hrest⟩ := hks
  obtain ⟨ks₂, h₂, hall⟩ := bind_eq_ok_iff.1 hrest
  obtain rfl := Except.ok.inj hall
  obtain ⟨hlinks, rfl⟩ := planContents_ok_iff.1 h₂
  rw [applyAll_append, Step.on_bind, applyAll_planRevisions h₁ hd.revisions ht fun _ _ => rfl]
  exact applyAll_contents fun p hp => isLinkAt_committed.trans (hlinks p hp)

/-- In `s'` every staged type is merged into the type of its element, every staged level and content
is in the place of the old one, and nothing else is different. -/
structure Applies (s s' : Store) (b : Staging) : Prop where
  type : ∀ a r m, (a, r) ∈ b.revisions → r.type = some m →
    ∃ t t', s.typeOf a = .ok t ∧ t.narrow? m = some t' ∧ s'.typeOf a = .ok t'
  access : ∀ a r l, (a, r) ∈ b.revisions → r.access = some l → s'.accessOf a = .ok l
  content : ∀ a bytes, (a, bytes) ∈ b.contents → s'.contentOf a = .ok (some bytes)
  same : s' = s.committed b

theorem find?_committed {b : Staging} :
    (s.committed b).arena.find? a = (s.arena.find? a).map (·.revised (b.revisionOf a)) :=
  Arena.find?_map

theorem get?_committed {b : Staging} (hd : b.Distinct) :
    (s.committed b).contents.get? a = (b.content? a).or (s.contents.get? a) :=
  Contents.get?_foldl_set hd.contents

theorem Accepts.applies {b : Staging} (h : s.Accepts b) (hd : b.Distinct) :
    s.Applies (s.committed b) b := by
  -- the element at `a` after the commit
  have hafter : ∀ {a r}, (a, r) ∈ b.revisions → ∃ e, s.arena.find? a = some e ∧
      (∀ m ∈ r.type, (e.type.narrow? m).isSome) ∧
      (s.committed b).arena.find? a = some (e.revised r) := by
    intro a r hmem
    obtain ⟨e, he, hm⟩ := h.revisions a r hmem
    have hr : b.revisionOf a = r := by
      rw [Staging.revisionOf, Staging.revision?, (Assoc.mem_iff_lookup hd.revisions).1 hmem]
      rfl
    exact ⟨e, he, hm, by rw [find?_committed, he, hr]; rfl⟩
  refine ⟨fun a r m hmem hr => ?_, fun a r l hmem hr => ?_, fun a bytes hmem => ?_, rfl⟩
  · obtain ⟨e, he, hm, he'⟩ := hafter hmem
    obtain ⟨t', ht'⟩ := Option.isSome_iff_exists.1 (hm m hr)
    exact ⟨e.type, t', typeOf_ok_iff.2 ⟨e, he, rfl⟩, ht',
      typeOf_ok_iff.2 ⟨_, he', by simp [Element.revised, hr, ht']⟩⟩
  · obtain ⟨e, -, -, he'⟩ := hafter hmem
    exact accessOf_ok_iff.2 ⟨_, he', by simp [Element.revised, hr]⟩
  · have hget := get?_committed (s := s) (a := a) hd
    rw [Staging.content?, (Assoc.mem_iff_lookup hd.contents).1 hmem] at hget
    exact contentOf_ok_iff.2 ⟨isLinkAt_committed.trans (h.contents a bytes hmem), hget⟩

end Store

/-! ## All or nothing -/

theorem Work.on_onTransaction {α : Type} (x : Step Transaction α) (w : Work) :
    (Work.onTransaction x).on w = ((x.on w.1).1, (x.on w.1).2, w.2) := rfl

theorem Work.on_onStore {α : Type} (x : Step Store α) (w : Work) :
    (Work.onStore x).on w = ((x.on w.2).1, w.1, (x.on w.2).2) := rfl

namespace Transaction

variable {x : Transaction} {s : Store}

theorem ensureOpen_ok (hopen : x.isOpen = true) : ensureOpen x = .ok () := by
  rw [ensureOpen, if_pos hopen]

/-- Whatever is done at once is refused once the transaction is finished. -/
theorem on_ensureOpen_bind {α : Type} {y : Unit → Step Work α} {w : Work}
    (hclosed : w.1.isOpen = false) :
    (Work.onTransaction (Step.ask ensureOpen) >>= y).on w
      = (.error (.invalidState .finished), w) := by
  rw [Step.on_bind, Work.on_onTransaction, Step.on_ask, ensureOpen, if_neg (by simp [hclosed])]

theorem commit_finished (hclosed : x.isOpen = false) :
    commit.on (x, s) = (.error (.invalidState .finished), (x, s)) :=
  on_ensureOpen_bind hclosed

/-- A commit does what is staged if the store accepts all of it, and nothing if not. -/
theorem commit_cases (hopen : x.isOpen = true) (ht : s.arena.Tidy) (hd : x.staged.Distinct) :
    (s.Accepts x.staged ∧ commit.on (x, s)
      = (.ok (), ({ x with phase := .committed, staged := {} }, s.committed x.staged))) ∨
    (¬s.Accepts x.staged ∧ ∃ f, commit.on (x, s)
      = (.error f, ({ x with phase := .active }, s))) := by
  have hrun : (Work.onTransaction (Step.ask ensureOpen)).on (x, s) = (.ok (), (x, s)) := by
    rw [Work.on_onTransaction, Step.on_ask, ensureOpen_ok hopen]
  rw [← Store.plan_ok_iff]
  cases hplan : s.plan x.staged with
  | ok ks =>
    have happly : (Work.onStore (Store.applyAll ks)).on (x, s)
        = (.ok (), (x, s.committed x.staged)) := by
      have := Store.applyAll_plan ht hd hplan
      rw [Work.on_onStore, this]
    refine .inl ⟨⟨ks, rfl⟩, ?_⟩
    rw [commit, Step.on_bind, hrun]
    simp only [Step.on_bind, Step.on_tryCatch, Step.on_ask, hplan, happly]
    rfl
  | error f =>
    refine .inr ⟨by simp, f, ?_⟩
    rw [commit, Step.on_bind, hrun]
    simp only [Step.on_bind, Step.on_tryCatch, Step.on_ask, hplan]
    rfl

/-- However a commit comes out, it has done all that is staged, or nothing to the store. -/
theorem commit_done_or_refused (ht : s.arena.Tidy) (hd : x.staged.Distinct) :
    (x.isOpen = true ∧ s.Accepts x.staged ∧ commit.on (x, s)
      = (.ok (), ({ x with phase := .committed, staged := {} }, s.committed x.staged))) ∨
    ∃ f x', commit.on (x, s) = (.error f, (x', s)) := by
  cases hopen : x.isOpen with
  | false => exact .inr ⟨_, _, commit_finished hopen⟩
  | true =>
    rcases commit_cases hopen ht hd with ⟨haccepts, hrun⟩ | ⟨-, f, hrun⟩
    · exact .inl ⟨rfl, haccepts, hrun⟩
    · exact .inr ⟨f, _, hrun⟩

end Transaction

namespace Reached

variable {allowed : Settings → Prop} {made : List Address} {d : Desk} {x : Transaction}

/-- Whatever was reached and whatever is staged, a commit applies all of it and ends the
transaction, when every staged address is live and every type and content fits; otherwise it is
refused, and the store, the ledger and what is staged are as before. -/
theorem commit_all_or_nothing (h : Reached allowed made d.store) (hopen : x.isOpen = true)
    (hb : x.staged.Recorded) :
    (d.store.Accepts x.staged ∧ ∃ s, d.store.Applies s x.staged ∧ d.run x Transaction.commit
      = (.ok (), { x with phase := .committed, staged := {} },
          { ledger := { d.ledger with active := d.ledger.active - 1 }, store := s })) ∨
    (¬d.store.Accepts x.staged ∧ ∃ f, d.run x Transaction.commit
      = (.error f, { x with phase := .active }, d)) := by
  rcases Transaction.commit_cases hopen h.atRest.sound.tidy hb.distinct with
    ⟨haccepts, hrun⟩ | ⟨hnot, f, hrun⟩
  · have hrun' : Transaction.commit (x, d.store) = _ := hrun
    refine .inl ⟨haccepts, _, haccepts.applies hb.distinct, ?_⟩
    simp only [Desk.run, hrun', Ledger.settle, hopen]
    rfl
  · have hrun' : Transaction.commit (x, d.store) = _ := hrun
    refine .inr ⟨hnot, f, ?_⟩
    simp only [Desk.run, hrun', Ledger.settle, hopen]
    rfl

end Reached

/-- Marks the first node of the sample as a class, opens it to everyone and gives the link another
content. -/
def sampleStaging : Staging :=
  (({} : Staging).recordRevision ⟨1, 1⟩ { type := some .classNode, access := some .lowest })
    |>.recordContent ⟨1, 3⟩ [7]

theorem recorded_sampleStaging : sampleStaging.Recorded :=
  .content _ _ (.revision _ _ .nothing)

def sampleTransaction : Transaction := { id := 1, phase := .active, staged := sampleStaging }

def sampleDesk : Desk := { ledger := ⟨1, 1⟩, store := sampleStore }

theorem reached_sampleDesk : Reached (· = .small) sampleMade sampleDesk.store := by
  simpa only [sampleDesk] using reached_sampleStore

namespace Reached

theorem commit_all_or_nothing_sampleDesk :
    (Reached (· = .small) sampleMade sampleDesk.store ∧ sampleTransaction.isOpen = true ∧
      sampleTransaction.staged.Recorded) ∧
    ((sampleDesk.store.Accepts sampleTransaction.staged ∧
      ∃ s, sampleDesk.store.Applies s sampleTransaction.staged ∧
        sampleDesk.run sampleTransaction Transaction.commit
          = (.ok (), { sampleTransaction with phase := .committed, staged := {} },
            { ledger := { sampleDesk.ledger with active := sampleDesk.ledger.active - 1 },
              store := s })) ∨
    (¬sampleDesk.store.Accepts sampleTransaction.staged ∧
      ∃ f, sampleDesk.run sampleTransaction Transaction.commit
        = (.error f, { sampleTransaction with phase := .active }, sampleDesk))) :=
  ⟨⟨reached_sampleDesk, rfl, recorded_sampleStaging⟩,
    reached_sampleDesk.commit_all_or_nothing rfl recorded_sampleStaging⟩

end Reached

end SemanticNet
