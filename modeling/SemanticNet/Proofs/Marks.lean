import SemanticNet.Proofs.Counting
import SemanticNet.Proofs.Framing
import SemanticNet.Proofs.Passes

/-!
# Marks

An erasure marks what it is going to free. When it fails it takes off the marks that it has set, and
when it fails in the course of its sweep nothing is different from before
(`Obtained.failed_erase`), however damaged the rings are. When it succeeds, whatever was marked is
gone. So between operations no element is marked (`Obtained.calm`), and none is out of reach of an
erasure for ever.
-/

namespace SemanticNet

open scoped List

namespace Arena

variable {t t' : Arena} {a b : Address} {as ms ns : List Address} {e : Element}

/-! ## Where marks are -/

/-- Only elements at the addresses `ms` are marked. -/
def MarkedOnly (t : Arena) (ms : List Address) : Prop :=
  ∀ a e, t.find? a = some e → e.erasing = true → a ∈ ms

theorem MarkedOnly.mono (h : t.MarkedOnly ms) (hsub : ms ⊆ ns) : t.MarkedOnly ns :=
  fun a e he hmark => hsub (h a e he hmark)

theorem markedOnly_nil_iff :
    t.MarkedOnly [] ↔ ∀ a e, t.find? a = some e → e.erasing = false := by
  simp only [MarkedOnly, List.not_mem_nil, imp_false, Bool.not_eq_true]

/-- Marks are not in rings or links. -/
theorem MarkedOnly.of_bare (h : t.MarkedOnly ms) (hbare : ∀ b, t'.bare? b = t.bare? b) :
    t'.MarkedOnly ms := by
  intro a e' he' hmark
  obtain ⟨e, he, heq⟩ := find?_of_bare (hbare a) he'
  exact h a e he ((congrArg (·.erasing) heq).symm.trans hmark)

/-- A mark goes with its element. -/
theorem MarkedOnly.freed (h : t.MarkedOnly (a :: ms))
    (hbare : ∀ b, t'.bare? b = if b = a then none else t.bare? b) : t'.MarkedOnly ms := by
  intro b e' he' hmark
  have hne : b ≠ a := by
    rintro rfl
    have hnone := hbare b
    rw [if_pos rfl, bare?, he'] at hnone
    cases hnone
  obtain ⟨e, he, heq⟩ := find?_of_bare ((hbare b).trans (if_neg hne)) he'
  have hmem := h b e he ((congrArg (·.erasing) heq).symm.trans hmark)
  exact (List.mem_cons.1 hmem).resolve_left hne

/-- What a sweep marks in a calm arena are all the marks that there are. -/
theorem Marked.markedOnly (h : t.Marked t' ms)
    (hcalm : ∀ a e, t.find? a = some e → e.erasing = false) : t'.MarkedOnly ms := by
  intro a e' he' hmark
  rw [h, Option.map_eq_some_iff] at he'
  obtain ⟨e, he, rfl⟩ := he'
  by_contra ha
  rw [if_neg ha, hcalm a e he] at hmark
  cases hmark

theorem find?_unmark : (t.unmark as).find? b
    = (t.find? b).map fun e => if b ∈ as then { e with erasing := false } else e := by
  induction as generalizing t with
  | nil => simp [unmark]
  | cons a as ih =>
    have hstep : t.unmark (a :: as) = (t.setErasing a false).unmark as := rfl
    rw [hstep, ih, setErasing, find?_update]
    by_cases hab : a = b
    · subst hab
      simp only [if_true, Option.map_map, List.mem_cons_self]
      refine congrArg (Option.map · (t.find? a)) (funext fun e => ?_)
      rw [Function.comp]
      split <;> rfl
    · simp [hab, Ne.symm hab]

/-- Taking off all marks leaves none. -/
theorem MarkedOnly.unmark (h : t.MarkedOnly ms) : (t.unmark ms).MarkedOnly [] := by
  intro a e' he' hmark
  rw [find?_unmark, Option.map_eq_some_iff] at he'
  obtain ⟨e, he, rfl⟩ := he'
  by_cases ha : a ∈ ms
  · simp [ha] at hmark
  · rw [if_neg ha] at hmark
    exact absurd (h a e he hmark) ha

/-! ## Taking marks off again -/

/-- Both arenas have the same shape and the same free slots. -/
structure SameFrame (t t' : Arena) : Prop where
  shape : t'.shape = t.shape
  free : ∀ a n, t'.slot? a = some (.free n) ↔ t.slot? a = some (.free n)

/-- Changes of elements keep the frame. -/
theorem parallel_sameFrame (t : Arena) : Parallel fun u u' => u' = u ∧ t.SameFrame u :=
  parallel_of_update fun u a f h => by
    refine ⟨shape_update.trans h.shape, fun b n => ?_⟩
    rw [slot?_update, ← h.free]
    split
    · rcases u.slot? b with - | (m | e) <;> simp [Slot.update]
    · rfl

/-- An arena is known by its frame and its elements. -/
theorem Addressable.eq_of_find? (ht : t.Addressable) (h : t.SameFrame t')
    (hfind : ∀ a, t'.find? a = t.find? a) : t' = t := by
  refine ht.ext_slot? h.shape fun a => ?_
  have hlive : ∀ e, t'.slot? a = some (.live e) ↔ t.slot? a = some (.live e) := fun e => by
    rw [← find?_eq_some_iff, hfind, find?_eq_some_iff]
  refine Option.ext fun x => ?_
  cases x with
  | free n => exact h.free a n
  | live e => exact hlive e

/-- After the marks of a sweep are taken off, the arena is as it was before the sweep. -/
theorem Addressable.unmark_sweep (ht : t.Addressable)
    (hcalm : ∀ a e, t.find? a = some e → e.erasing = false)
    (hmarked : t.Marked (t.sweep a).arena (t.sweep a).marked) :
    (t.sweep a).arena.unmark (t.sweep a).marked = t := by
  have hparallel := parallel_sameFrame t
  have hswept := (hparallel.sweep (x := a) ⟨rfl, rfl, fun _ _ => Iff.rfl⟩).2.2
  have hframe : t.SameFrame ((t.sweep a).arena.unmark (t.sweep a).marked) :=
    (hparallel.unmark hswept).2
  refine ht.eq_of_find? hframe fun b => ?_
  rw [find?_unmark, hmarked, Option.map_map]
  cases hb : t.find? b with
  | none => rfl
  | some e =>
    have he := hcalm b e hb
    obtain ⟨type, access, flags, erasing, out, inc, con⟩ := e
    simp only at he
    subst he
    simp only [Option.map_some, Function.comp]
    split <;> rfl

/-- A sweep from an element that is not live fails as looking for it does. -/
theorem order_sweep_of_fetch {f : Failure} (h : t.fetch a = .error f) :
    (t.sweep a).order = .error f := by
  have hstill : (t.setErasing a true).fetch a = .error f := by
    rw [fetch] at h ⊢
    rw [setErasing, find?_update, if_pos rfl]
    cases he : t.find? a with
    | none => simpa [he] using h
    | some e => simp [he] at h
  rw [sweep, sweepFrom, incident, members, hstill]
  rfl

/-! ## Splicing -/

theorem bare?_update {f : Element → Element} (hf : ∀ e, (f e).bare = e.bare) :
    (t.update a f).bare? b = t.bare? b := by
  rw [bare?, find?_update, bare?]
  split
  · rw [Option.map_map]
    exact congrArg (Option.map · (t.find? b)) (funext hf)
  · rfl

/-- Splicing changes rings and links only. -/
theorem spliced_bare (t : Arena) :
    Spliced fun u u' => u' = u ∧ ∀ b, u.bare? b = t.bare? b where
  sameRings u u' h := by
    rw [h.1]
    exact ⟨fun _ _ => rfl, fun _ _ _ => rfl⟩
  setRing u u' a d r h :=
    ⟨by rw [h.1], fun b => (bare?_update fun _ => Element.bare_setRing).trans (h.2 b)⟩
  setLink u u' c x d l h :=
    ⟨by rw [h.1], fun b => (bare?_update fun _ => Element.bare_setLink).trans (h.2 b)⟩

theorem bare?_detachAll (c : Address) (ps : List (Address × Direction)) (t : Arena)
    (b : Address) : ((detachAll c ps).on t).2.bare? b = t.bare? b :=
  ((spliced_bare t).detachAll t t ⟨rfl, fun _ => rfl⟩).2.2 b

theorem bare?_attachAll (c : Address) (ps : List (Address × Direction)) (t : Arena)
    (b : Address) : ((Store.attachAll c ps).on t).2.bare? b = t.bare? b :=
  ((spliced_bare t).attachAll t t ⟨rfl, fun _ => rfl⟩).2.2 b

end Arena

namespace Store

variable {s s' : Store} {a x : Address} {as ws ms order : List Address} {e : Element} {f : Failure}
  {n : Nat}

/-! ## Freeing -/

/-- An element to which a connector is attached waits. Another one goes, or it can not be taken out
of its rings. Rings and links aside, nothing else is different after that. -/
theorem release_cases (a : Address) (s : Store) :
    (release a).on s = (.ok false, s) ∨
      (∃ s', (release a).on s = (.ok true, s') ∧
        ∀ b, s'.arena.bare? b = if b = a then none else s.arena.bare? b) ∨
      ∃ f s', (release a).on s = (.error f, s') ∧ ∀ b, s'.arena.bare? b = s.arena.bare? b := by
  rw [Store.release, Machinery.release, Step.on_bind, Step.on_ask]
  cases hfetch : s.arena.fetch a with
  | error f => exact .inr (.inr ⟨f, s, rfl, fun _ => rfl⟩)
  | ok e =>
    dsimp only
    split
    · exact .inl rfl
    have hbare := Arena.bare?_detachAll a e.places s.arena
    rw [Step.on_bind, on_onArena]
    generalize (Arena.detachAll a e.places).on s.arena = r at hbare
    obtain ⟨r, t⟩ := r
    cases r with
    | error f => exact .inr (.inr ⟨f, _, rfl, hbare⟩)
    | ok u =>
      -- the element is as live as it was, so its slot is freed
      obtain ⟨e', he', -⟩ := Arena.find?_of_bare (hbare a).symm (Arena.fetch_ok_iff.1 hfetch)
      obtain ⟨hrun, hfind⟩ := Arena.free_live he'
      rw [hrun] at hfind
      have harena := (dropContent_fields a e.type { s with arena := t }).1
      simp only [Step.on_bind, Step.on_change, on_onArena, harena, hrun, Step.on_pure]
      refine .inr (.inl ⟨_, rfl, fun b => ?_⟩)
      rw [← hbare b, Arena.bare?, Arena.bare?]
      refine (congrArg (Option.map Element.bare) (hfind b)).trans ?_
      split <;> rfl

/-- Freeing marks nothing. -/
theorem keeps_markedOnly_release (ms : List Address) (a : Address) :
    Step.Keeps (fun s => s.arena.MarkedOnly ms) (release a) := by
  intro s hs
  rcases release_cases a s with hrun | ⟨s', hrun, hbare⟩ | ⟨f, s', hrun, hbare⟩
  · rw [hrun]
    exact hs
  · rw [hrun]
    exact (hs.mono (List.subset_cons_self a ms)).freed hbare
  · rw [hrun]
    exact hs.of_bare hbare

theorem keeps_markedOnly_releaseAll (ms : List Address) (n : Nat) (as : List Address) :
    Step.Keeps (fun s => s.arena.MarkedOnly ms) (releaseAll n as) :=
  Step.respects_iff_keeps.1 (respects_releaseAll
    (fun a => Step.respects_iff_keeps.2 (keeps_markedOnly_release ms a)) n as)

/-- After a pass over marked elements, those that wait are the ones that are marked. -/
theorem markedOnly_releasePass (h : s.arena.MarkedOnly (as ++ ms))
    (hrun : (releasePass as).on s = (.ok ws, s')) : s'.arena.MarkedOnly (ws ++ ms) := by
  induction as generalizing s ms ws with
  | nil =>
    cases hrun
    exact h
  | cons a as ih =>
    obtain ⟨freed, s₁, hfirst, hrest⟩ := Step.on_bind_eq_ok_iff.1 hrun
    obtain ⟨vs, s₂, hpass, hlast⟩ := Step.on_bind_eq_ok_iff.1 hrest
    cases hlast
    rcases release_cases a s with hwaits | ⟨s'', hgone, hbare⟩ | ⟨f, s'', hfails, -⟩
    · -- `a` keeps its mark, and waits
      obtain ⟨rfl, rfl⟩ : false = freed ∧ s = s₁ := by
        cases hwaits.symm.trans hfirst
        exact ⟨rfl, rfl⟩
      have hshift : s.arena.MarkedOnly (as ++ a :: ms) :=
        h.mono fun b hb => by simpa [or_left_comm] using hb
      exact (ih hshift hpass).mono fun b hb => by simpa [or_left_comm] using hb
    · cases hgone.symm.trans hfirst
      exact ih (h.freed hbare) hpass
    · cases hfails.symm.trans hfirst

/-- When all that is marked has been freed, nothing is marked. -/
theorem calm_releaseAll (h : s.arena.MarkedOnly as) (hrun : (releaseAll n as).on s = (.ok (), s')) :
    s'.Calm := by
  induction n generalizing s as with
  | zero =>
    cases as with
    | nil =>
      cases hrun
      exact Arena.markedOnly_nil_iff.1 h
    | cons a as => cases hrun
  | succ n ih =>
    cases as with
    | nil =>
      cases hrun
      exact Arena.markedOnly_nil_iff.1 h
    | cons a as =>
      obtain ⟨ws, s₁, hpass, hrest⟩ := Step.on_bind_eq_ok_iff.1 hrun
      refine ih ?_ hrest
      rw [← List.append_nil ws]
      exact markedOnly_releasePass (by rwa [List.append_nil]) hpass

/-! ## Erasing -/

/-- An erasure that fails in the course of its sweep leaves everything as it was. One that fails
later takes the marks of the sweep off, and one that succeeds has freed whatever was marked. -/
theorem Calm.erase_cases (hcalm : s.Calm) (ht : s.arena.Addressable) (x : Address) :
    (∃ f, (erase x).on s = (.error f, s) ∧ (s.arena.sweep x).order = .error f ∧
      ∃ a, s.arena.incident a = .error f) ∨
    ∃ order r s', (s.arena.sweep x).order = .ok order ∧ order ~ (s.arena.sweep x).marked ∧
      (s.swept x).arena.MarkedOnly (s.arena.sweep x).marked ∧
      (releaseAll order.length order).on (s.swept x) = (r, s') ∧
      (erase x).on s = (r.map fun _ => order, match r with
        | .ok _ => s'
        | .error _ => { s' with arena := s'.arena.unmark (s.arena.sweep x).marked }) := by
  cases hfetch : s.arena.fetch x with
  | error f =>
    refine .inl ⟨f, ?_, Arena.order_sweep_of_fetch hfetch, x, ?_⟩
    · rw [Store.erase, Machinery.erase, Step.on_bind, Step.on_ask, hfetch]
    · rw [Arena.incident, Arena.members, hfetch]
      rfl
  | ok e =>
    have he := Arena.fetch_ok_iff.1 hfetch
    obtain ⟨hmarked, hends⟩ := Arena.sweep_cases ht hcalm (Option.isSome_of_eq_some he)
    have hback := ht.unmark_sweep hcalm hmarked
    simp only [Machinery.erase, Step.on_bind, Step.on_ask, hfetch, hcalm x e he,
      Bool.false_eq_true, if_false, on_onArena, Step.on_modifyGet, Step.on_tryCatch,
      Machinery.releaseSwept]
    rcases hends with ⟨order, horder, hperm⟩ | ⟨a, f, hfails, ha⟩
    · refine .inr ⟨order, ((releaseAll order.length order).on (s.swept x)).1,
        ((releaseAll order.length order).on (s.swept x)).2, horder, hperm,
        hmarked.markedOnly hcalm, rfl, ?_⟩
      simp only [horder, show { s with arena := (s.arena.sweep x).arena } = s.swept x from rfl]
      rcases (releaseAll order.length order).on (s.swept x) with ⟨f | u, s'⟩ <;> rfl
    · refine .inl ⟨f, ?_, hfails, a, ha⟩
      simp only [hfails, Step.on_change, hback, Step.on_throw]

/-- However an erasure ends, nothing is marked after it. -/
theorem Calm.erase (hcalm : s.Calm) (ht : s.arena.Addressable) (x : Address) :
    ((Store.erase x).on s).2.Calm := by
  rcases hcalm.erase_cases ht x with ⟨f, hrun, -⟩ | ⟨order, r, s', -, hperm, hswept, hfreed, hrun⟩
  · rw [hrun]
    exact hcalm
  · rw [hrun]
    cases r with
    | ok u => exact calm_releaseAll (hswept.mono hperm.symm.subset) hfreed
    | error f =>
      have hkept := keeps_markedOnly_releaseAll _ order.length order _ hswept
      rw [hfreed] at hkept
      exact Arena.markedOnly_nil_iff.1 (Arena.MarkedOnly.unmark hkept)

/-! ## Creations and changes -/

/-- A new element is not marked, and attaching it marks nothing. -/
theorem Calm.make (hcalm : s.Calm) (h : s.Regular) (hmark : e.erasing = false) :
    ((Store.make e).on s).2.Calm := by
  have hinsert : ((insert e).on s).2.Calm := by
    have harena := (insert_on e s).2.1
    rcases Arena.Regular.allocate_cases h e with ⟨c, t, hrun, hplaced⟩ | ⟨hrun, -⟩ | ⟨hrun, -⟩
    · intro b e' he'
      rw [harena, hrun, hplaced.find?] at he'
      split at he'
      · cases he'
        exact hmark
      · exact hcalm b e' he'
    · rwa [Calm, harena, hrun]
    · rwa [Calm, harena, hrun]
  have hattach : ∀ c, Step.Keeps Calm (onArena (attachAll c e.places)) := fun c s' hs' =>
    Arena.markedOnly_nil_iff.1 ((Arena.markedOnly_nil_iff.2 hs').of_bare
      (Arena.bare?_attachAll c e.places s'.arena))
  rw [Store.make, Machinery.make, Step.on_bind]
  generalize (insert e).on s = r at hinsert
  obtain ⟨f | c, s'⟩ := r
  · exact hinsert
  · exact ((hattach c).bind fun _ => Step.keeps_pure c) s' hinsert

/-- A change of an element that leaves its mark alone marks nothing. -/
theorem keeps_calm_alter {g : Element → Element} (hg : ∀ e, (g e).erasing = e.erasing) :
    Step.Keeps Calm (onArena (Arena.alter a g)) := by
  have hkeeps : Step.Keeps (fun t : Arena => ∀ b e, t.find? b = some e → e.erasing = false)
      (Arena.alter a g) := by
    refine Arena.keeps_alter fun t ht b e he => ?_
    rw [Arena.find?_update] at he
    split at he
    · obtain ⟨e', he', rfl⟩ := Option.map_eq_some_iff.1 he
      rw [hg]
      exact ht b e' he'
    · exact ht b e he
  exact fun s hs => hkeeps s.arena hs

theorem keeps_calm_apply (k : Change) : Step.Keeps Calm (apply k) := by
  cases k with
  | setType a m => exact keeps_calm_alter fun _ => rfl
  | setAccess a access => exact keeps_calm_alter fun _ => rfl
  | setContent a bytes => exact (Step.keeps_ask _).bind fun _ _ hs => hs

end Store

namespace Action

/-- What every change keeps is kept by all operations that neither make nor erase elements. -/
theorem keeps_of_apply {P : Store → Prop} (happly : ∀ k, Step.Keeps P (Store.apply k)) {k : Action}
    (hk : ¬k.IsStructural) : Step.Keeps P k.run := by
  have happlyAll : ∀ ks, Step.Keeps P (Store.applyAll ks) := by
    intro ks
    induction ks with
    | nil => exact fun _ h => h
    | cons k ks ih => exact (happly k).bind fun _ => ih
  cases k with
  | addNode type access => exact absurd trivial hk
  | addLink type access => exact absurd trivial hk
  | connect type source target access => exact absurd trivial hk
  | erase a => exact absurd trivial hk
  | narrow a type => exact ((Step.keeps_ask _).bind fun m => happly (.setType a m)).map _
  | setAccess a access => exact (happly (.setAccess a access)).map _
  | setContent a bytes => exact (happly (.setContent a bytes)).map _
  | commit x => exact (Transaction.keeps_commit (fun s _ ks hs _ => happlyAll ks s hs) x).map _

/-- Elements are made without a mark. -/
theorem erasing_of_element? {k : Action} {e : Element} (hk : k.element? = some e) :
    e.erasing = false := by
  cases k with
  | addNode | addLink | connect =>
    cases hk
    rfl
  | erase | narrow | setAccess | setContent | commit => cases hk

/-- Every operation leaves nothing marked, whether it fails or not. -/
theorem keeps_calm (k : Action) : Step.Keeps (fun s => s.Regular ∧ s.Calm) k.run := by
  intro s hs
  obtain ⟨hregular, hcalm⟩ := hs
  refine ⟨k.keeps_regular s hregular, ?_⟩
  rcases k.isStructural_cases with hquiet | ⟨e, he⟩ | ⟨a, rfl⟩
  · exact keeps_of_apply Store.keeps_calm_apply hquiet s hcalm
  · rcases creation_cases s he with ⟨f, hrun⟩ | ⟨-, hrun⟩
    · rw [hrun]
      exact hcalm
    · rw [hrun, Step.on_map]
      exact hcalm.make hregular (erasing_of_element? he)
  · rw [run, Step.on_map]
    exact hcalm.erase (Arena.Regular.addressable hregular) a

end Action

namespace Obtained

variable {s s' : Store} {x : Address} {f : Failure}

/-- Between operations no element is marked, whatever dump the store was loaded from. -/
theorem calm (h : Obtained s) : s.Calm := by
  induction h with
  | fresh c => exact Store.calm_ofSettings c
  | loaded check c bytes h =>
    intro a e he
    exact ((Dump.wellFormed_of_decode h).element a e he).calm
  | act k h ih => exact (k.keeps_calm _ ⟨h.regular, ih⟩).2
  | counted m _ ih => exact ih

/-- An erasure that fails leaves no marks, whatever dump the store was loaded from. It fails in the
course of its sweep, where the rings of an element can not be followed, and then nothing is
different; or it fails later, when what was swept is freed. -/
theorem failed_erase (h : Obtained s) (hrun : (Store.erase x).on s = (.error f, s')) :
    s'.Calm ∧
      (((s.arena.sweep x).order = .error f ∧ (∃ a, s.arena.incident a = .error f) ∧ s' = s) ∨
        ∃ order, (s.arena.sweep x).order = .ok order ∧
          ((Store.releaseAll order.length order).on (s.swept x)).1 = .error f) := by
  have ht := Arena.Regular.addressable h.regular
  have hcalm := h.calm.erase ht x
  rw [hrun] at hcalm
  refine ⟨hcalm, ?_⟩
  rcases h.calm.erase_cases ht x with ⟨g, hrun', horder, hincident⟩ |
    ⟨order, r, s₁, horder, -, -, hfreed, hrun'⟩
  · cases hrun.symm.trans hrun'
    exact .inl ⟨horder, hincident, rfl⟩
  · have houtcome := congrArg Prod.fst (hrun.symm.trans hrun')
    refine .inr ⟨order, horder, ?_⟩
    rw [hfreed]
    cases r with
    | ok u => cases houtcome
    | error g =>
      cases houtcome
      rfl

end Obtained

/-- The sample with one link torn: the ring of arcs into the edge does not close. -/
def tornStore : Store :=
  { sampleStore with
    arena := sampleStore.arena.update ⟨1, 6⟩ (·.setLink ⟨1, 4⟩ .incoming ⟨⟨1, 6⟩, ⟨1, 1⟩⟩) }

/-- What is loaded of its dump. -/
def frayedStore : Store :=
  match (Dump.readBody .small).run' (Dump.body tornStore) with
  | .ok (s, _) => s
  | .error _ => .ofSettings .small

theorem decode_tornStore :
    ∃ y, Dump.decode Crc32.check .small (Dump.encode Crc32.check tornStore)
      = .ok (frayedStore, y) := by
  have hread : ((Dump.readBody .small).run' (Dump.body tornStore)).isOk = true := by decide +kernel
  rw [Dump.encode, Dump.decode_append, frayedStore]
  cases hrun : (Dump.readBody .small).run' (Dump.body tornStore) with
  | error f =>
    rw [hrun] at hread
    cases hread
  | ok x => exact ⟨_, rfl⟩

/-- The sample with that ring can not be swept from an end of the edge: three elements are marked
before the ring is met, and then nothing is different. From the source of the arc in the ring it can
be, and then the arc is taken out of one of its rings before the other one fails. Neither leaves a
mark. -/
theorem Obtained.failed_erase_frayedStore :
    Obtained frayedStore ∧ (frayedStore.arena.sweep ⟨1, 1⟩).marked = [⟨1, 4⟩, ⟨1, 5⟩, ⟨1, 1⟩] ∧
      (∃ s', (Store.erase ⟨1, 1⟩).on frayedStore = (.error (.corrupt .ringTooLong), s') ∧
        s'.Calm ∧ s' = frayedStore) ∧
      ∃ s', (Store.erase ⟨1, 3⟩).on frayedStore = (.error (.corrupt .notIncident), s') ∧
        s'.Calm ∧ s'.isLive ⟨1, 6⟩ = true ∧ s'.ringSize ⟨1, 3⟩ .outgoing = .ok 0 := by
  obtain ⟨y, hload⟩ := decode_tornStore
  have hobtained : Obtained frayedStore := .loaded Crc32.check .small _ hload
  have hcollecting : ((Store.erase ⟨1, 1⟩).on frayedStore).1 = .error (.corrupt .ringTooLong) := by
    decide +kernel
  have hfreeing : ((Store.erase ⟨1, 3⟩).on frayedStore).1 = .error (.corrupt .notIncident) := by
    decide +kernel
  have hleft : ((Store.erase ⟨1, 3⟩).on frayedStore).2.isLive ⟨1, 6⟩ = true ∧
      ((Store.erase ⟨1, 3⟩).on frayedStore).2.ringSize ⟨1, 3⟩ .outgoing = .ok 0 := by
    decide +kernel
  refine ⟨hobtained, by decide +kernel, ?_, ?_⟩
  · generalize hrun : (Store.erase ⟨1, 1⟩).on frayedStore = r at hcollecting
    obtain ⟨r, s'⟩ := r
    obtain rfl : r = _ := hcollecting
    obtain ⟨hcalm, ⟨-, -, hsame⟩ | ⟨order, hswept, -⟩⟩ := hobtained.failed_erase hrun
    · exact ⟨s', rfl, hcalm, hsame⟩
    · have horder : (frayedStore.arena.sweep ⟨1, 1⟩).order = .error (.corrupt .ringTooLong) := by
        decide +kernel
      exact absurd (horder.symm.trans hswept) (by simp)
  · generalize hrun : (Store.erase ⟨1, 3⟩).on frayedStore = r at hfreeing hleft
    obtain ⟨r, s'⟩ := r
    obtain rfl : r = _ := hfreeing
    obtain ⟨hcalm, -⟩ := hobtained.failed_erase hrun
    exact ⟨s', rfl, hcalm, hleft⟩

end SemanticNet
