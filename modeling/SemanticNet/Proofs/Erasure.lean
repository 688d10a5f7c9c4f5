import Mathlib.Order.WellFounded
import SemanticNet.Proofs.Sweep

/-!
# Erasure

What a sweep has found is freed in passes. A pass frees every element on which there is no connector
when it begins (`Sound.releasePass`), so at least the one that was made last; and the element that
the sweep started from goes when nothing else is left (`Sound.releaseAll`). Erasing a live element
of a store at rest takes away exactly what hangs on it (`AtRest.erase`).
-/

namespace SemanticNet

open scoped List

namespace Arena

variable {t t' : Arena} {a c x y : Address} {as cs made : List Address} {e : Element}
  {d : Direction}

theorem isEmpty_first (h : t.IsRing x d cs) (he : t.find? x = some e) :
    (e.ring d).first.isEmpty = true ↔ cs = [] := by
  obtain ⟨r, hr, hfirst, -⟩ := h.head
  rw [ring?, he] at hr
  obtain rfl := Option.some.inj hr
  rw [Address.isEmpty_iff, hfirst]
  cases cs with
  | nil => simp
  | cons c cs => simpa using h.ne_empty List.mem_cons_self

/-- The heads of its rings tell whether there is a connector on an element. -/
theorem Wired.hasIncident_iff (h : t.Wired made) (he : t.find? x = some e) :
    e.hasIncident = true ↔ ∃ c, t.Touches c x := by
  have hring : ∀ d, (e.ring d).first.isEmpty = false ↔ ∃ c, t.Incident x d c := by
    intro d
    obtain ⟨cs, hcs, hmem⟩ := h.ring x d (Option.isSome_of_eq_some he)
    rw [← Bool.not_eq_true, isEmpty_first hcs he, List.eq_nil_iff_forall_not_mem]
    simp only [hmem, not_forall, not_not]
  have hout : (!e.outgoing.first.isEmpty) = true ↔ ∃ c, t.Incident x .outgoing c := by
    rw [Bool.not_eq_true']
    exact hring .outgoing
  have hin : (!e.incoming.first.isEmpty) = true ↔ ∃ c, t.Incident x .incoming c := by
    rw [Bool.not_eq_true']
    exact hring .incoming
  rw [Element.hasIncident, Bool.or_eq_true, hout, hin]
  simp only [touches_iff]
  constructor
  · intro hor
    rcases hor with ⟨c, hc⟩ | ⟨c, hc⟩
    · exact ⟨c, .outgoing, hc⟩
    · exact ⟨c, .incoming, hc⟩
  · intro hex
    obtain ⟨c, d, hc⟩ := hex
    cases d with
    | outgoing => exact .inl ⟨c, hc⟩
    | incoming => exact .inr ⟨c, hc⟩

/-- An element leaves the rings that it sits in, and stays where it is. -/
theorem Wired.detachAll (h : t.Wired made) (ht : t.Tidy) (he : t.find? a = some e) :
    (∀ p ∈ e.places, ∃ cs, t.IsRing p.1 p.2 cs ∧ a ∈ cs) ∧
    ∃ t' e', (Arena.detachAll a e.places).on t = (.ok (), t') ∧ t'.Tidy ∧
      t'.find? a = some e' ∧ (∀ b, t'.bare? b = t.bare? b) ∧
      ∀ x d cs, t.IsRing x d cs → t'.IsRing x d (if (x, d) ∈ e.places then cs.erase a else cs) := by
  have hplaced : ∀ p ∈ e.places, ∃ cs, t.IsRing p.1 p.2 cs ∧ a ∈ cs := by
    intro p hp
    have hin : t.Incident p.1 p.2 a := ⟨e, he, hp⟩
    have howner := (h.ends a p.1 (touches_iff.2 ⟨p.2, hin⟩)).1
    obtain ⟨cs, hcs, hmem⟩ := h.ring p.1 p.2 howner
    exact ⟨cs, hcs, (hmem a).2 hin⟩
  obtain ⟨t', hrun, hbare, hring⟩ := detachAll_spec (t := t) (c := a) e.nodup_places hplaced
  have htidy : t'.Tidy := by
    have hkeeps : Step.Keeps Arena.Tidy (Arena.detachAll a e.places) :=
      Step.respects_iff_keeps.1
        (parallel_of_update fun t a f ht => ht.update a f).detachAll
    have := hkeeps _ ht
    rwa [hrun] at this
  obtain ⟨e', he'⟩ : ∃ e', t'.find? a = some e' :=
    Option.isSome_iff_exists.1 (by
      rw [isSome_of_bare (hbare a), he]
      rfl)
  exact ⟨hplaced, t', e', hrun, htidy, he', hbare, hring⟩

/-- What goes from a wired arena goes with the connectors on it when a wired arena is left. -/
theorem Without.closed (hw : t.Without t' as) (h' : t'.Wired made) :
    ∀ a ∈ as, ∀ c, t.Touches c a → c ∈ as := by
  intro a ha c hc
  by_contra hca
  have hlive := (h'.ends c a (hw.touches.2 ⟨hca, hc⟩)).1
  exact (hw.isSome_find?.1 hlive).1 ha

/-- What is left still hangs on what it hung on. -/
theorem Hanging.without (h : t.Hanging x y) (hw : t.Without t' as) (h' : t'.Wired made)
    (hy : y ∉ as) : t'.Hanging x y := by
  induction h with
  | self => exact .self
  | touching _ hc ih =>
    exact .touching (ih fun hya => hy (hw.closed h' _ hya _ hc)) (hw.touches.2 ⟨hy, hc⟩)

end Arena

namespace Store

variable {s s' s'' : Store} {a c x y : Address} {e : Element} {as bs ps made : List Address}

/-- The store `s'` is `s` without the elements `as` and their contents. -/
structure Less (s s' : Store) (as : List Address) : Prop where
  arena : s.arena.Without s'.arena as
  contents : ∀ b, s'.contents.get? b = if b ∈ as then none else s.contents.get? b

theorem Less.refl (s : Store) : s.Less s [] := ⟨.refl _, fun b => by simp⟩

theorem Less.trans (h : s.Less s' as) (h' : s'.Less s'' bs) : s.Less s'' (as ++ bs) where
  arena := h.arena.trans h'.arena
  contents b := by
    rw [h'.contents, h.contents]
    by_cases ha : b ∈ as <;> by_cases hb : b ∈ bs <;> simp [ha, hb]

theorem Less.of_mem_iff (h : s.Less s' as) (hab : ∀ c, c ∈ bs ↔ c ∈ as) : s.Less s' bs where
  arena := h.arena.of_mem_iff hab
  contents b := by
    rw [h.contents]
    simp only [hab]

/-! ## One element -/

theorem get?_dropContent (h : s.Sound made) (he : s.arena.find? a = some e) (b : Address) :
    (dropContent a e.type s).contents.get? b = if b = a then none else s.contents.get? b := by
  rw [dropContent]
  split
  · rw [show (s.changeContents (·.erase a)).contents = s.contents.erase a from rfl,
      Contents.get?_erase]
    simp only [eq_comm]
  next hlink =>
    split
    next hba =>
      subst hba
      rw [← Option.not_isSome_iff_eq_none]
      intro hsome
      have := h.contents b hsome
      simp [Arena.isLinkAt, he, hlink] at this
    next => rfl

/-- An element on which there is a connector is not freed. -/
theorem Sound.release_waits (h : s.Sound made) (he : s.arena.find? a = some e)
    (hc : s.arena.Touches c a) : (release a).on s = (.ok false, s) := by
  have hinc := (h.wired.hasIncident_iff he).2 ⟨c, hc⟩
  simp only [Machinery.release, Step.on_bind, Step.on_ask, Arena.fetch, he, hinc, if_true,
    Step.on_pure]

/-- An element on which there is no connector is freed, and no other. Its slot is handed out next.
-/
theorem Sound.release (h : s.Sound made) (he : s.arena.find? a = some e)
    (hfree : ∀ c, ¬s.arena.Touches c a) :
    ∃ s', (release a).on s = (.ok true, s') ∧ s'.Sound made ∧ s.Less s' [a] ∧
      s'.arena.Offers a := by
  have hinc : ¬e.hasIncident = true := fun hi => by
    obtain ⟨c, hc⟩ := (h.wired.hasIncident_iff he).1 hi
    exact hfree c hc
  -- first the element leaves the rings that it sits in, and then its slot
  obtain ⟨-, t₁, e₁, hrun₁, htidy₁, he₁, hbare₁, hring₁⟩ := h.wired.detachAll h.tidy he
  obtain ⟨t₂, hrun₂, htidy₂, hoffers₂, hfind₂⟩ := htidy₁.free he₁
  have hwithout := h.wired.withdraw he hbare₁ hring₁ hfind₂
  generalize hs₁ : ({ s with arena := t₁ } : Store) = s₁ at *
  obtain ⟨harena, hcensus, hcontents⟩ : (dropContent a e.type s₁).arena = t₁ ∧
      (dropContent a e.type s₁).census = s.census ∧
      (dropContent a e.type s₁).contents = (dropContent a e.type s).contents := by
    subst hs₁
    rw [dropContent, dropContent]
    split <;> exact ⟨rfl, rfl, rfl⟩
  have hrun : (Store.release a).on s
      = (.ok true, { dropContent a e.type s₁ with arena := t₂ }.noteErased e.type.sort) := by
    simp only [Machinery.release, Step.on_bind, Step.on_ask, Arena.fetch, he, if_neg hinc,
      on_onArena, hrun₁, Step.on_change, hs₁, harena, hrun₂, Step.on_pure]
  have hget : ∀ b, (dropContent a e.type s₁).contents.get? b
      = if b = a then none else s.contents.get? b := by
    rw [hcontents]
    exact get?_dropContent h he
  refine ⟨_, hrun, ?_, ⟨hwithout, fun b => ?_⟩, hoffers₂⟩
  · refine h.without htidy₂ hwithout he hfree hget ?_
    exact congrArg (·.remove e.type.sort) hcensus
  · have hmem : b ∈ [a] ↔ b = a := List.mem_singleton
    simp only [hmem]
    exact hget b

/-! ## One pass -/

/-- A pass over `as` has freed all of them but `ws`, among them every one that no connector touches.
When the last of `as` was freed, it was freed last, and its slot is handed out next. -/
structure Passed (made : List Address) (s s' : Store) (as ws : List Address) : Prop where
  sublist : ws <+ as
  sound : s'.Sound made
  less : s.Less s' (as.filter (· ∉ ws))
  freed : ∀ a ∈ as, (∀ c, ¬s.arena.Touches c a) → a ∉ ws
  last : ∀ x, as.getLast? = some x → x ∉ ws → s'.arena.Offers x

/-- An element with a connector on it waits for the next pass. -/
theorem Passed.waits {ws : List Address} (h : Passed made s s' as ws) (ha : a ∉ as)
    (hc : s.arena.Touches c a) : Passed made s s' (a :: as) (a :: ws) where
  sublist := h.sublist.cons_cons a
  sound := h.sound
  less := by
    refine h.less.of_mem_iff fun b => ?_
    by_cases hba : b = a
    · simp [hba, ha]
    · simp [hba]
  freed b hb hfree := by
    rcases List.mem_cons.1 hb with rfl | hb
    · exact absurd hc (hfree c)
    · have hba : b ≠ a := fun e => ha (e ▸ hb)
      simp [hba, h.freed b hb hfree]
  last x hx hxw := by
    obtain ⟨hxa, hxw⟩ : x ≠ a ∧ x ∉ ws := by simpa using hxw
    refine h.last x ?_ hxw
    cases as with
    | nil => exact absurd (Option.some.inj hx).symm hxa
    | cons b as => simpa using hx

/-- An element that was freed leaves the others to be passed over. -/
theorem Passed.frees {s₁ : Store} {ws : List Address} (h : Passed made s₁ s' as ws) (ha : a ∉ as)
    (hless : s.Less s₁ [a]) (hoffers : as = [] → s'.arena.Offers a) :
    Passed made s s' (a :: as) ws where
  sublist := h.sublist.cons a
  sound := h.sound
  less := by
    have haw : a ∉ ws := fun hmem => ha (h.sublist.subset hmem)
    refine (hless.trans h.less).of_mem_iff fun b => ?_
    by_cases hba : b = a
    · simp [hba, haw]
    · simp [hba]
  freed b hb hfree := by
    rcases List.mem_cons.1 hb with rfl | hb
    · exact fun hmem => ha (h.sublist.subset hmem)
    · exact h.freed b hb fun c hcb => hfree c (hless.arena.touches.1 hcb).2
  last x hx hxw := by
    cases as with
    | nil =>
      obtain rfl : a = x := by simpa using hx
      exact hoffers rfl
    | cons b as => exact h.last x (by simpa using hx) hxw

theorem Sound.releasePass (h : s.Sound made) (hd : as.Nodup)
    (hlive : ∀ a ∈ as, (s.arena.find? a).isSome) :
    ∃ ws s', (releasePass as).on s = (.ok ws, s') ∧ Passed made s s' as ws := by
  induction as generalizing s with
  | nil => exact ⟨[], s, rfl, .refl _, h, .refl s, by simp, by simp⟩
  | cons a as ih =>
    obtain ⟨ha, hd⟩ := List.nodup_cons.1 hd
    obtain ⟨e, he⟩ := Option.isSome_iff_exists.1 (hlive a List.mem_cons_self)
    -- the rest of the pass starts from `s` if `a` waits, and from the store without `a` if not
    by_cases hc : ∃ c, s.arena.Touches c a
    · obtain ⟨c, hc⟩ := hc
      have hrun := h.release_waits he hc
      obtain ⟨ws, s', hrun', hpassed⟩ := ih h hd fun b hb => hlive b (List.mem_cons_of_mem a hb)
      refine ⟨a :: ws, s', ?_, hpassed.waits ha hc⟩
      simp only [Machinery.releasePass, Step.on_bind, hrun, hrun', Step.on_pure, Bool.false_eq_true,
        if_false]
    · obtain ⟨s₁, hrun, hsound₁, hless₁, hoffers₁⟩ := h.release he fun c hca => hc ⟨c, hca⟩
      have hlive₁ : ∀ b ∈ as, (s₁.arena.find? b).isSome := by
        intro b hb
        have hba : b ≠ a := fun e => ha (e ▸ hb)
        exact hless₁.arena.isSome_find?.2
          ⟨by simpa using hba, hlive b (List.mem_cons_of_mem a hb)⟩
      obtain ⟨ws, s', hrun', hpassed⟩ := ih hsound₁ hd hlive₁
      refine ⟨ws, s', ?_, hpassed.frees ha hless₁ fun hnil => ?_⟩
      · simp only [Machinery.releasePass, Step.on_bind, hrun, hrun', Step.on_pure, if_true]
      · subst hnil
        obtain ⟨-, rfl⟩ : [] = ws ∧ s₁ = s' := by
          simpa [Machinery.releasePass, Prod.ext_iff] using hrun'
        exact hoffers₁

/-! ## All passes -/

theorem exists_newest (made : List Address) (h : ps ≠ []) :
    ∃ n ∈ ps, ∀ b ∈ ps, ¬Arena.Newer made b n := by
  obtain ⟨a, ha⟩ := List.exists_mem_of_ne_nil ps h
  exact (measure fun b => made.idxOf b).wf.has_min {b | b ∈ ps} ⟨a, ha⟩

theorem getLast?_of_sublist {ws : List Address} (hs : ws <+ ps) (hd : ps.Nodup)
    (hlast : ps.getLast? = some x) (hx : x ∈ ws) : ws.getLast? = some x := by
  obtain ⟨l, rfl⟩ := List.getLast?_eq_some_iff.1 hlast
  obtain ⟨l₁, l₂, rfl, h₁, h₂⟩ := List.sublist_append_iff.1 hs
  have hxl : x ∉ l := fun hxl => List.disjoint_of_nodup_append hd hxl List.mem_cons_self
  rcases List.mem_append.1 hx with hx | hx
  · exact absurd (h₁.subset hx) hxl
  · have : l₂ = [x] := by
      rcases List.sublist_singleton.1 h₂ with rfl | rfl
      · cases hx
      · rfl
    simp [this]

/-- The elements `ps` are those that hang on `x`, which is the last of them. -/
structure Pending (s : Store) (x : Address) (ps : List Address) : Prop where
  nodup : ps.Nodup
  live : ∀ a ∈ ps, (s.arena.find? a).isSome
  closed : ∀ a ∈ ps, ∀ c, s.arena.Touches c a → c ∈ ps
  last : ps.getLast? = some x
  hanging : ∀ a ∈ ps, s.arena.Hanging x a

theorem Pending.ne_nil (h : s.Pending x ps) : ps ≠ [] := by
  intro hnil
  have hlast := h.last
  simp [hnil] at hlast

theorem mem_filter_of_not_mem {ws : List Address} (ha : a ∈ ps) (haw : a ∉ ws) :
    a ∈ ps.filter (· ∉ ws) := by
  simp [ha, haw]

/-- There is no connector on the element that was made last: it would have been made later. -/
theorem Pending.exists_free (h : s.Pending x ps) (hs : s.Sound made) :
    ∃ n ∈ ps, ∀ c, ¬s.arena.Touches c n := by
  obtain ⟨n, hn, hnewest⟩ := exists_newest made h.ne_nil
  exact ⟨n, hn, fun c hc => hnewest c (h.closed n hn c hc) (hs.wired.ends c n hc).2⟩

/-- A pass frees some element, so there are fewer for the next one. -/
theorem Pending.length_lt {ws : List Address} (h : s.Pending x ps) (hs : s.Sound made)
    (hp : Passed made s s' ps ws) : ws.length < ps.length := by
  obtain ⟨n, hn, hfree⟩ := h.exists_free hs
  have hnw : n ∉ ws := hp.freed n hn hfree
  refine Nat.lt_of_le_of_ne hp.sublist.length_le fun heq => hnw ?_
  rw [hp.sublist.eq_of_length heq]
  exact hn

/-- As long as `x` waits, what is left hangs on it. -/
theorem Pending.rest {ws : List Address} (h : s.Pending x ps) (hp : Passed made s s' ps ws)
    (hx : x ∈ ws) : s'.Pending x ws where
  nodup := hp.sublist.nodup h.nodup
  live a ha := hp.less.arena.isSome_find?.2 ⟨by simp [ha], h.live a (hp.sublist.subset ha)⟩
  closed a ha c hc := by
    obtain ⟨hcgone, hc⟩ := hp.less.arena.touches.1 hc
    by_contra hcw
    exact hcgone (mem_filter_of_not_mem (h.closed a (hp.sublist.subset ha) c hc) hcw)
  last := getLast?_of_sublist hp.sublist h.nodup h.last hx
  hanging a ha := (h.hanging a (hp.sublist.subset ha)).without hp.less.arena hp.sound.wired
    (by simp [ha])

/-- With `x` everything that hung on it is gone. -/
theorem Pending.eq_nil {ws : List Address} (h : s.Pending x ps) (hp : Passed made s s' ps ws)
    (hx : x ∉ ws) : ws = [] := by
  have hgone : x ∈ ps.filter (· ∉ ws) := mem_filter_of_not_mem (List.mem_of_getLast? h.last) hx
  rw [List.eq_nil_iff_forall_not_mem]
  intro a ha
  have hall : a ∈ ps.filter (· ∉ ws) :=
    (h.hanging a (hp.sublist.subset ha)).closed hgone (hp.less.arena.closed hp.sound.wired)
  simp [ha] at hall

/-- What hangs on `x` is freed, `x` last, in as many passes as there are elements. The slot of `x`
is handed out next. -/
theorem Sound.releaseAll (h : s.Sound made) (passes : Nat) (hp : s.Pending x ps)
    (hlen : ps.length ≤ passes) :
    ∃ s', (releaseAll passes ps).on s = (.ok (), s') ∧ s'.Sound made ∧ s.Less s' ps ∧
      s'.arena.Offers x := by
  induction passes generalizing s ps with
  | zero => exact absurd (List.length_eq_zero_iff.1 (Nat.le_zero.1 hlen)) hp.ne_nil
  | succ passes ih =>
    obtain ⟨ws, s₁, hrun₁, hpassed⟩ := h.releasePass hp.nodup hp.live
    have hunfold : (Store.releaseAll (passes + 1) ps).on s
        = (Store.releaseAll passes ws).on s₁ := by
      obtain ⟨p, ps', rfl⟩ := List.exists_cons_of_ne_nil hp.ne_nil
      rw [Store.releaseAll, Machinery.releaseAll, Step.on_bind, hrun₁]
      simp
    rw [hunfold]
    -- while `x` waits there is less to do than before, and without it there is nothing left
    by_cases hx : x ∈ ws
    · have hshorter := hp.length_lt h hpassed
      obtain ⟨s₂, hrun₂, hsound₂, hless₂, hoffers₂⟩ :=
        ih hpassed.sound (hp.rest hpassed hx) (by omega)
      refine ⟨s₂, hrun₂, hsound₂, (hpassed.less.trans hless₂).of_mem_iff fun b => ?_, hoffers₂⟩
      by_cases hb : b ∈ ws
      · simp [hb, hpassed.sublist.subset hb]
      · simp [hb]
    · obtain rfl := hp.eq_nil hpassed hx
      refine ⟨s₁, by cases passes <;> rfl, hpassed.sound, ?_, hpassed.last x hp.last hx⟩
      exact hpassed.less.of_mem_iff fun b => by simp

/-! ## Erasing -/

/-- A sweep leaves a sound store behind, with the marks. -/
theorem AtRest.swept {sweep : Arena.Sweep} {order : List Address} (h : s.AtRest made)
    (htidy : sweep.arena.Tidy) (hs : s.arena.Swept x sweep order) :
    ({ s with arena := sweep.arena } : Store).Sound made := by
  refine h.sound.of_map htidy hs.marked fun b e he => ?_
  have hp := h.sound.proper b e he
  split
  · exact ⟨rfl, rfl, hp.connection, hp.kind, hp.flags, hp.access⟩
  · exact ⟨rfl, rfl, hp⟩

/-- What a sweep has put into order is what hangs on the element, with the marks as without. -/
theorem pending_swept {sweep : Arena.Sweep} {order : List Address}
    (hs : s.arena.Swept x sweep order) (hx : (s.arena.find? x).isSome) :
    ({ s with arena := sweep.arena } : Store).Pending x order where
  nodup := hs.nodup
  live a ha := by
    refine hs.marked.isSome_find?.trans ?_
    refine ((hs.mem_iff a).1 ha).closed (S := fun a => (s.arena.find? a).isSome) hx ?_
    rintro b - c ⟨e, k, he, -⟩
    exact Option.isSome_of_eq_some he
  closed a ha c hc :=
    (hs.mem_iff c).2 (.touching ((hs.mem_iff a).1 ha) (hs.marked.touches.1 hc))
  last := hs.last
  hanging a ha := ((hs.mem_iff a).1 ha).closed .self fun b hb c hc =>
    .touching hb (hs.marked.touches.2 hc)

/-- Erasing a live element takes away what hangs on it, itself last, and its slot is handed out
next. -/
theorem AtRest.erase (h : s.AtRest made) (hx : (s.arena.find? x).isSome) :
    ∃ order s', (erase x).on s = (.ok order, s') ∧ s'.AtRest made ∧ s.Less s' order ∧
      order.Nodup ∧ order.getLast? = some x ∧ (∀ a, a ∈ order ↔ s.arena.Hanging x a) ∧
      s'.arena.Offers x := by
  obtain ⟨e, he⟩ := Option.isSome_iff_exists.1 hx
  obtain ⟨order, hs⟩ := Arena.sweep_spec h.sound.tidy h.sound.wired h.calm hx
  have htidy : (s.arena.sweep x).arena.Tidy :=
    ((Arena.parallel_of_update fun t a f ht => ht.update a f).sweep ⟨rfl, h.sound.tidy⟩).2.2.2
  have hsound₁ := h.swept htidy hs
  have hpending := pending_swept hs hx
  generalize hs₁ : ({ s with arena := (s.arena.sweep x).arena } : Store) = s₁ at *
  have hmarked : s.arena.Marked s₁.arena (s.arena.sweep x).marked := hs₁ ▸ hs.marked
  obtain ⟨s₂, hrun₂, hsound₂, hless₂, hoffers₂⟩ := hsound₁.releaseAll order.length hpending le_rfl
  have hrun : (Store.erase x).on s = (.ok order, s₂) := by
    simp only [Machinery.erase, Step.on_bind, Step.on_ask, Arena.fetch, he, h.calm x e he,
      Bool.false_eq_true, if_false, on_onArena, Step.on_modifyGet, hs₁, Step.on_tryCatch,
      Machinery.releaseSwept, hs.order_eq, hrun₂, Step.on_pure]
  -- the marks are on the elements that go, so what stays is as it was in `s`
  have hbare : ∀ b, b ∉ order → s₁.arena.bare? b = s.arena.bare? b := by
    intro b hb
    have hb' : b ∉ (s.arena.sweep x).marked := fun hm => hb (hs.perm.mem_iff.2 hm)
    rw [Arena.bare?, hmarked b]
    simp only [hb', if_false, Option.map_id']
    rfl
  have hless : s.Less s₂ order := by
    refine ⟨⟨fun b => ?_, fun y d cs hy hcs => ?_⟩, fun b => ?_⟩
    · rw [hless₂.arena.bare]
      split
      · rfl
      next hb => exact hbare b hb
    · exact hless₂.arena.ring y d cs hy
        (hcs.of_threads hmarked.threads fun c _ => hmarked.threads)
    · rw [hless₂.contents, ← hs₁]
  refine ⟨order, s₂, hrun, ⟨hsound₂, fun b e' he' => ?_⟩, hless, hs.nodup, hs.last, hs.mem_iff,
    hoffers₂⟩
  have hb : b ∉ order := (hless₂.arena.isSome_find?.1 (Option.isSome_of_eq_some he')).1
  have hsame : s₂.arena.bare? b = s.arena.bare? b := by rw [hless.arena.bare, if_neg hb]
  obtain ⟨e'', he'', heq⟩ := Arena.find?_of_bare hsame he'
  exact (congrArg (·.erasing) heq).trans (h.calm b e'' he'')

/-- An element that is not live can not be erased. -/
theorem erase_dead (hx : s.arena.find? x = none) : ∃ f, (erase x).on s = (.error f, s) := by
  refine ⟨if x.isEmpty then .invalidParams .emptyAddress else .notLive x, ?_⟩
  simp only [Machinery.erase, Step.on_bind, Step.on_ask, Arena.fetch, hx]

end Store

end SemanticNet
