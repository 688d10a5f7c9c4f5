import SemanticNet.Proofs.Runs

/-!
# Outcomes

What one operation does to a store at rest (`Action.run_cases`): it makes an element, or erases what
hangs on one, or leaves the outline of every element as it is. What becomes of a ring follows from
that (`Action.ring_cases`).
-/

namespace SemanticNet

theorem Element.threads_of_outline {e e' : Element} (h : e'.outline = e.outline) :
    e'.threads = e.threads := by
  obtain ⟨type, access, hmould, rfl⟩ := outline_eq_iff.1 h
  simp only [threads, retint, ElementType.isCommonEdge_of_mould hmould]

namespace Arena

variable {t t' : Arena} {a x : Address} {d : Direction} {cs : List Address}

/-- The elements of both arenas have the same outlines. -/
def Outlined (t t' : Arena) : Prop :=
  ∀ a, (t'.find? a).map Element.outline = (t.find? a).map Element.outline

theorem Outlined.refl (t : Arena) : t.Outlined t := fun _ => rfl

theorem Outlined.map_threads (h : t.Outlined t') :
    (t'.find? a).map Element.threads = (t.find? a).map Element.threads := by
  have hout := h a
  cases he : t.find? a with
  | none =>
    rw [he] at hout
    cases he' : t'.find? a with
    | none => rfl
    | some e' => simp [he'] at hout
  | some e =>
    rw [he] at hout
    cases he' : t'.find? a with
    | none => simp [he'] at hout
    | some e' =>
      rw [he'] at hout
      exact congrArg some (Element.threads_of_outline (Option.some.inj hout))

theorem Outlined.isSome_find? (h : t.Outlined t') : (t'.find? a).isSome = (t.find? a).isSome :=
  isSome_of_threads h.map_threads

theorem Outlined.isRing (h : t.Outlined t') (hcs : t.IsRing x d cs) : t'.IsRing x d cs :=
  hcs.of_threads h.map_threads fun _ _ => h.map_threads

end Arena

/-! ## Commits -/

theorem Store.AtRest.outlined_commit {s : Store} {made : List Address} {x : Transaction}
    (h : s.AtRest made) (hx : x.staged.InUse) :
    s.arena.Outlined (Transaction.commit.on (x, s)).2.2.arena := by
  have hkeeps : Step.Keeps (fun w : Work => s.arena.Outlined w.2.arena ∧
      w.2.AtRest made ∧ w.1.staged.InUse) Transaction.commit := by
    refine Step.Keeps.bind (fun w hw => hw) fun _ => Step.Keeps.bind (Step.Keeps.tryCatch ?_ ?_) ?_
    · intro w hw
      obtain ⟨x, s'⟩ := w
      obtain ⟨hsame, hrest, huse⟩ := hw
      rw [Step.on_bind, Step.on_ask]
      dsimp only
      cases hplan : s'.plan x.staged with
      | error f => exact ⟨hsame, hrest, huse⟩
      | ok ks =>
        have htakes := hrest.takes_plan huse hplan
        refine ⟨fun a => ?_, hrest.applyAll htakes, huse⟩
        exact (Store.map_outline_applyAll htakes).trans (hsame a)
    · exact fun f => Step.Keeps.bind (fun w hw => hw) fun _ => Step.keeps_throw f
    · -- nothing is staged any more
      exact fun _ w hw => ⟨hw.1, hw.2.1, fun p hp => absurd hp List.not_mem_nil⟩
  exact (hkeeps (x, s) ⟨Arena.Outlined.refl _, h, hx⟩).1

namespace Action

variable {s : Store} {made : List Address} {k : Action} {x : Address} {d : Direction}
  {cs : List Address}

/-! ## The three outcomes -/

/-- One element was made. -/
def Makes (s : Store) (r : Except Failure Answer × Store) : Prop :=
  ∃ c e, r.1 = .ok (.made c) ∧ s.Created r.2 c e

/-- What hangs on one element was erased. -/
def Erases (s : Store) (r : Except Failure Answer × Store) : Prop :=
  ∃ x order, (s.arena.find? x).isSome ∧ r.1 = .ok (.erased order) ∧ s.Less r.2 order ∧
    ∀ a, a ∈ order ↔ s.arena.Hanging x a

/-- Nothing was made and nothing was erased, and no outline is different. -/
def Retains (s : Store) (r : Except Failure Answer × Store) : Prop :=
  (∀ c, r.1 ≠ .ok (.made c)) ∧ (∀ as, r.1 ≠ .ok (.erased as)) ∧ s.arena.Outlined r.2.arena

theorem retains_error {f : Failure} {s' : Store} (h : s.arena.Outlined s'.arena) :
    Retains s (.error f, s') := by
  refine ⟨fun c => ?_, fun as => ?_, h⟩ <;> simp

theorem cases_creates {y : Step Store Address} (h : Store.Creates y s) :
    Makes s ((Answer.made <$> y).on s) ∨ Retains s ((Answer.made <$> y).on s) := by
  rw [Step.on_map]
  rcases h with ⟨c, e, s', hrun, hcreated⟩ | ⟨f, s', hrun, hagrees⟩
  · rw [hrun]
    exact .inl ⟨c, e, rfl, hcreated⟩
  · rw [hrun]
    refine .inr (retains_error ?_)
    rw [hagrees.arena]
    exact Arena.Outlined.refl _

theorem retains_done {y : Step Store Unit} (h : s.arena.Outlined (y.on s).2.arena) :
    Retains s (((fun _ => Answer.done) <$> y).on s) := by
  rw [Step.on_map]
  cases (y.on s).1 with
  | ok u => refine ⟨fun c => ?_, fun as => ?_, h⟩ <;> simp [Except.map]
  | error f => exact retains_error h

/-- What an operation may come to. -/
theorem run_cases (k : Action) (hk : k.Admissible) (h : s.AtRest made) :
    Makes s (k.run.on s) ∨ Erases s (k.run.on s) ∨ Retains s (k.run.on s) := by
  have hcreates : ∀ {y : Step Store Address}, Store.Creates y s →
      Makes s ((Answer.made <$> y).on s) ∨ Erases s ((Answer.made <$> y).on s) ∨
        Retains s ((Answer.made <$> y).on s) :=
    fun hy => (cases_creates hy).imp_right .inr
  cases k with
  | addNode type access => exact hcreates (h.sound.creates_addNode type hk)
  | addLink type access => exact hcreates (h.sound.creates_addLink type hk)
  | connect type source target access =>
    exact hcreates (h.sound.creates_connect type source target hk)
  | erase a =>
    rw [run, Step.on_map]
    right
    cases ha : s.arena.find? a with
    | none =>
      obtain ⟨f, hrun⟩ := Store.erase_dead ha
      rw [hrun]
      exact .inr (retains_error (Arena.Outlined.refl _))
    | some e =>
      have hlive := Option.isSome_of_eq_some ha
      obtain ⟨order, s', hrun, -, hless, -, -, hmem, -⟩ := h.erase hlive
      rw [hrun]
      exact .inl ⟨a, order, ha ▸ rfl, rfl, hless, hmem⟩
  | narrow a type =>
    refine .inr (.inr (retains_done fun b => ?_))
    rw [Store.narrow, Step.on_bind, Step.on_ask]
    cases hm : s.narrowed a type with
    | error f => rfl
    | ok m =>
      have hsame := Store.map_outline_apply (b := b) (h.takes_of_narrowed hm)
      exact hsame
  | setAccess a access =>
    have htakes : s.Takes (.setAccess a access) := hk
    have hsame := fun b => Store.map_outline_apply (b := b) htakes
    exact .inr (.inr (retains_done hsame))
  | setContent a bytes =>
    have htakes : s.Takes (.setContent a bytes) := trivial
    have hsame := fun b => Store.map_outline_apply (b := b) htakes
    exact .inr (.inr (retains_done hsame))
  | commit x => exact .inr (.inr (retains_done (h.outlined_commit hk)))

/-! ## Single addresses -/

/-- What is erased was live, and is not any more. -/
theorem erased_cases {as : List Address} {a : Address} (hk : k.Admissible) (h : s.AtRest made)
    (hrun : (k.run.on s).1 = .ok (.erased as)) (ha : a ∈ as) :
    (s.arena.find? a).isSome ∧ (k.run.on s).2.arena.find? a = none := by
  rcases run_cases k hk h with ⟨c, e, hmade, -⟩ | ⟨x, order, hx, herased, hless, hmem⟩ |
    ⟨-, herased, -⟩
  · cases hmade.symm.trans hrun
  · cases herased.symm.trans hrun
    constructor
    · cases (hmem a).1 ha with
      | self => exact hx
      | touching _ hc =>
        obtain ⟨e, -, he, -⟩ := hc
        exact Option.isSome_of_eq_some he
    · rw [← Option.not_isSome_iff_eq_none, hless.arena.isSome_find?]
      intro hlive
      exact hlive.1 ha
  · exact absurd hrun (herased as)

/-- There is an element at an address only if there was one before or it is new. -/
theorem find?_run_eq_none {a : Address} (hk : k.Admissible) (h : s.AtRest made)
    (ha : s.arena.find? a = none) (hnew : (k.run.on s).1 ≠ .ok (.made a)) :
    (k.run.on s).2.arena.find? a = none := by
  rw [← Option.not_isSome_iff_eq_none]
  intro hlive
  rcases run_cases k hk h with ⟨c, e, hmade, hcreated⟩ | ⟨x, order, -, -, hless, -⟩ |
    ⟨-, -, hsame⟩
  · have hac : a ≠ c := by
      rintro rfl
      exact hnew hmade
    have hbare : (k.run.on s).2.arena.bare? a = s.arena.bare? a := by
      rw [hcreated.grown.bare, if_neg hac]
    rw [Arena.isSome_of_bare hbare, ha] at hlive
    cases hlive
  · have hbefore := (hless.arena.isSome_find?.1 hlive).2
    rw [ha] at hbefore
    cases hbefore
  · rw [hsame.isSome_find?, ha] at hlive
    cases hlive

/-- However many operations follow, there is an element only if it was made by one of them. -/
theorem find?_runAll_eq_none {a : Address} {ks : List Action} (hks : ∀ k ∈ ks, k.Admissible)
    (h : s.AtRest made) (ha : s.arena.find? a = none)
    (hnew : .ok (.made a) ∉ (runAll ks s).1) : (runAll ks s).2.arena.find? a = none := by
  induction ks generalizing s made with
  | nil => exact ha
  | cons k ks ih =>
    have hk := hks k List.mem_cons_self
    have hdead := find?_run_eq_none hk h ha fun hmade => hnew (hmade ▸ List.mem_cons_self)
    exact ih (fun l hl => hks l (List.mem_cons_of_mem k hl)) (k.atRest_run hk h) hdead fun hmade =>
      hnew (List.mem_cons_of_mem _ hmade)

/-! ## Rings -/

/-- What an operation makes of a ring: it may put a new connector in front, or take out what it
erases, or leave the ring as it is. The ring is gone when its owner is erased. -/
theorem ring_cases (k : Action) (hk : k.Admissible) (h : s.AtRest made)
    (hcs : s.arena.IsRing x d cs) :
    (∃ c, (k.run.on s).1 = .ok (.made c) ∧ c ∉ cs ∧ ((k.run.on s).2.arena.IsRing x d (c :: cs) ∨
      (k.run.on s).2.arena.IsRing x d cs)) ∨
    (∃ order, (k.run.on s).1 = .ok (.erased order) ∧
      (x ∈ order → ∀ c ∈ cs, c ∈ order) ∧
      (x ∉ order → (k.run.on s).2.arena.IsRing x d (cs.filter (· ∉ order)))) ∨
    ((∀ c, (k.run.on s).1 ≠ .ok (.made c)) ∧ (∀ as, (k.run.on s).1 ≠ .ok (.erased as)) ∧
      (k.run.on s).2.arena.IsRing x d cs) := by
  rcases run_cases k hk h with ⟨c, e, hrun, hcreated⟩ | ⟨y, order, -, hrun, hless, hmem⟩ |
    ⟨hmade, herased, hsame⟩
  · refine .inl ⟨c, hrun, fun hc => hcs.ne_of_fresh hcreated.grown.fresh c hc rfl, ?_⟩
    have hring := hcreated.grown.ring x d cs hcs
    split at hring
    · exact .inl hring
    · exact .inr hring
  · refine .inr (.inl ⟨order, hrun, fun hx c hc => ?_, fun hx => hless.arena.ring x d cs hx hcs⟩)
    -- the members of a ring of what goes hang on it
    obtain ⟨cs', hcs', hmem'⟩ := h.sound.wired.ring x d hcs.isSome_owner
    obtain rfl := hcs.unique hcs'
    rw [hmem] at hx ⊢
    exact .touching hx (Arena.touches_iff.2 ⟨d, (hmem' c).1 hc⟩)
  · exact .inr (.inr ⟨hmade, herased, hsame.isRing hcs⟩)

end Action

end SemanticNet
