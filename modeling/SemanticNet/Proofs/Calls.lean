import SemanticNet.Proofs.Drafting

/-!
# Calls

What one call of a session comes to: outside of a transaction it is refused, or it is the operation
and the session has the rights for it (`Draft.Call.direct_cases`); inside of one it is refused, or
done at once and recorded, or staged (`Draft.Call.outcome`). Whatever a session stages is proper
(`Draft.Call.Outcome.proper`), and only a commit or a rollback finishes a transaction.
-/

namespace SemanticNet

/-! ## Rights -/

/-- The session may write the element at `a`. -/
def Session.MayWrite (c : Session) (s : Store) (a : Address) : Prop :=
  ∃ e, s.arena.find? a = some e ∧ c.levels.mayWrite e.access = true

theorem Session.requireWrite_iff {c : Session} {s : Store} {a : Address} :
    c.requireWrite s a = .ok () ↔ c.MayWrite s a := by
  unfold requireWrite MayWrite
  rw [bind_eq_ok_iff]
  simp only [Store.accessOf_ok_iff]
  constructor
  · intro h
    obtain ⟨access, ⟨e, he, rfl⟩, hlevels⟩ := h
    refine ⟨e, he, ?_⟩
    by_contra hnot
    simp [hnot, throw, throwThe, MonadExceptOf.throw] at hlevels
  · intro h
    obtain ⟨e, he, hlevels⟩ := h
    exact ⟨e.access, ⟨e, he, rfl⟩, by simp [hlevels, pure, Except.pure]⟩

/-- A session may write what has its own levels. -/
theorem Store.mayWrite_of_bare {c : Session} {s : Store} {a : Address} {e : Element}
    (hb : s.arena.bare? a = some e.bare) (haccess : e.access = c.levels) : c.MayWrite s a := by
  obtain ⟨e', he', hbare⟩ := Arena.bare?_eq_some.1 hb
  have haccess' : e'.access = e.access := congrArg (·.access) hbare
  refine ⟨e', he', ?_⟩
  rw [haccess', haccess]
  exact decide_eq_true (UInt8.le_refl _)

/-- A step that asks for a right first is refused, or the right is there. -/
theorem Session.asking_cases {α β : Type} (c : Session) (a : Address) (g : α → β)
    (x : Step Store α) (s : Store) :
    (∃ f, (g <$> (Step.ask (c.requireWrite · a) >>= fun _ => x)).on s = (.error f, s)) ∨
      c.MayWrite s a ∧
        (g <$> (Step.ask (c.requireWrite · a) >>= fun _ => x)).on s = (g <$> x).on s := by
  rcases Step.ask_bind_cases (c.requireWrite · a) (fun _ => x) s with ⟨u, hu, hrun⟩ | ⟨f, hrun⟩
  · exact .inr ⟨requireWrite_iff.1 hu, by rw [Step.on_map, hrun, Step.on_map]⟩
  · exact .inl ⟨f, by rw [Step.on_map, hrun]; rfl⟩

/-! ## Calls -/

namespace Draft.Call

/-- The elements that a call needs the right to write. -/
def targets : Call → List Address
  | addNode _ | addLink _ => []
  | connect _ source target => [source, target]
  | erase a | narrow a _ | setAccess a _ | setContent a _ => [a]

/-- The call outside of a transaction. -/
def direct (c : Session) : Call → Step Store Answer
  | addNode type => .made <$> c.addNode type
  | addLink type => .made <$> c.addLink type
  | connect type source target => .made <$> c.connect type source target
  | erase a => .erased <$> c.erase a
  | narrow a type => (fun _ => .done) <$> c.narrow a type
  | setAccess a access => (fun _ => .done) <$> c.setAccess a access
  | setContent a bytes => (fun _ => .done) <$> c.setContent a bytes

/-- The session may write all that the call needs. -/
def Allowed (c : Session) (s : Store) (k : Call) : Prop := ∀ a ∈ k.targets, c.MayWrite s a

variable {c : Session} {s : Store} {w : Work} {k : Call} {a : Address}

/-- A call for one element asks for that one. -/
theorem allowed_of_targets (htargets : k.targets = [a]) (ha : c.MayWrite s a) : k.Allowed c s := by
  intro b hb
  rw [htargets, List.mem_singleton] at hb
  exact hb ▸ ha

/-- A call is refused, or it is allowed and is the operation. -/
theorem direct_cases (c : Session) (k : Call) (s : Store) :
    (∃ f, (k.direct c).on s = (.error f, s)) ∨
      k.Allowed c s ∧ (k.direct c).on s = (k.action c).run.on s := by
  cases k with
  | addNode type => exact .inr ⟨List.forall_mem_nil _, rfl⟩
  | addLink type => exact .inr ⟨List.forall_mem_nil _, rfl⟩
  | connect type source target =>
    show (∃ f, (Answer.made <$> c.connect type source target).on s = _) ∨
      _ ∧ (Answer.made <$> c.connect type source target).on s = _
    rw [Session.connect]
    split
    · exact .inl ⟨.invalidParams .emptyEndpoint, rfl⟩
    · rcases c.asking_cases source Answer.made (do
          Step.ask (c.requireWrite · target)
          Store.connect type source target c.levels) s with hrefused | ⟨hsource, hrun⟩
      · exact .inl hrefused
      · rcases c.asking_cases target Answer.made (Store.connect type source target c.levels) s with
          ⟨f, hrefused⟩ | ⟨htarget, hrun'⟩
        · exact .inl ⟨f, hrun.trans hrefused⟩
        · refine .inr ⟨?_, hrun.trans hrun'⟩
          intro a ha
          rcases List.mem_pair.1 ha with rfl | rfl
          · exact hsource
          · exact htarget
  | erase a =>
    exact (c.asking_cases a Answer.erased (Store.erase a) s).imp_right
      (And.imp_left (allowed_of_targets rfl))
  | narrow a type =>
    exact (c.asking_cases a _ (Store.narrow a type) s).imp_right
      (And.imp_left (allowed_of_targets rfl))
  | setAccess a access =>
    exact (c.asking_cases a _ (Store.setAccess a access) s).imp_right
      (And.imp_left (allowed_of_targets rfl))
  | setContent a bytes =>
    exact (c.asking_cases a _ (Store.setContent a bytes) s).imp_right
      (And.imp_left (allowed_of_targets rfl))

/-- What a call on a transaction comes to: it is refused; or it is done at once, and recorded if it
succeeds; or it is staged. -/
inductive Outcome (c : Session) (w : Work) : Call → Except Failure Answer × Work → Prop where
  | refused {k : Call} (f : Failure) : Outcome c w k (.error f, w)
  | failed {k : Call} {f : Failure} {s : Store} (h : k.Allowed c w.2)
      (hrun : (k.action c).run.on w.2 = (.error f, s)) : Outcome c w k (.error f, (w.1, s))
  | made {k : Call} {a : Address} {s : Store} (h : k.Allowed c w.2) (hopen : w.1.isOpen = true)
      (hrun : (k.action c).run.on w.2 = (.ok (.made a), s)) :
      Outcome c w k (.ok (.made a),
        ({ w.1 with phase := .active, staged := (w.1.staged.recordCreated a).2 }, s))
  | erased {k : Call} {as : List Address} {s : Store} (h : k.Allowed c w.2)
      (hopen : w.1.isOpen = true) (hrun : (k.action c).run.on w.2 = (.ok (.erased as), s)) :
      Outcome c w k (.ok (.erased as),
        ({ w.1 with phase := .active, staged := w.1.staged.removeAll as }, s))
  | narrowed {a : Address} {type m : ElementType} (h : c.MayWrite w.2 a)
      (hopen : w.1.isOpen = true) :
      Outcome c w (.narrow a type) (.ok .done, ({ w.1 with
        phase := .active
        staged := w.1.staged.recordRevision a { w.1.staged.revisionOf a with type := some m } },
        w.2))
  | levels {a : Address} {access : Access} (h : c.MayWrite w.2 a) (hopen : w.1.isOpen = true) :
      Outcome c w (.setAccess a access) (.ok .done, ({ w.1 with
        phase := .active
        staged := w.1.staged.recordRevision a
          { w.1.staged.revisionOf a with access := some access } }, w.2))
  | content {a : Address} {bytes : Bytes} (h : c.MayWrite w.2 a) (hopen : w.1.isOpen = true) :
      Outcome c w (.setContent a bytes) (.ok .done, ({ w.1 with
        phase := .active
        staged := w.1.staged.recordContent a bytes }, w.2))

/-- Staging is refused once the transaction is finished. -/
theorem on_stage {x : Transaction} (f : Staging → Staging) :
    (∃ e, (Transaction.stage f).on x = (.error e, x)) ∨ x.isOpen = true ∧
      (Transaction.stage f).on x = (.ok (), { x with phase := .active, staged := f x.staged }) := by
  cases hopen : x.isOpen with
  | true => exact .inr ⟨rfl, Transaction.on_record hopen⟩
  | false =>
    refine .inl ⟨.invalidState .finished, ?_⟩
    rw [Transaction.stage, Transaction.record, Step.on_bind, Step.on_ask, Transaction.ensureOpen,
      if_neg (by simp [hopen])]

/-- What is done at once in an open transaction is the call outside of it, and recorded. -/
theorem outcome_at_once {α : Type} {g : α → Answer} {x : Step Store α} {y : Step Work α}
    {f : α → Staging → Staging} (hx : k.direct c = g <$> x)
    (hclosed : w.1.isOpen = false → y.on w = (.error (.invalidState .finished), w))
    (hfails : w.1.isOpen = true → ∀ e t, x.on w.2 = (.error e, t) → y.on w = (.error e, (w.1, t)))
    (hdone : w.1.isOpen = true → ∀ r t, x.on w.2 = (.ok r, t) →
      y.on w = (.ok r, ({ w.1 with phase := .active, staged := f r w.1.staged }, t)))
    (hok : ∀ r t, k.Allowed c w.2 → w.1.isOpen = true →
      (k.action c).run.on w.2 = (.ok (g r), t) → Outcome c w k
        (.ok (g r), ({ w.1 with phase := .active, staged := f r w.1.staged }, t))) :
    Outcome c w k ((g <$> y).on w) := by
  have hcases := direct_cases c k w.2
  rw [hx, Step.on_map] at hcases
  rw [Step.on_map]
  cases hphase : w.1.isOpen with
  | false =>
    rw [hclosed hphase]
    exact .refused _
  | true =>
    rcases hrun : x.on w.2 with ⟨e | r, t⟩
    · rw [hrun] at hcases
      rw [hfails hphase e t hrun]
      rcases hcases with ⟨e', hrefused⟩ | ⟨hallowed, haction⟩
      · obtain ⟨-, rfl⟩ := Prod.ext_iff.1 hrefused
        exact .refused e
      · exact .failed hallowed haction.symm
    · rw [hrun] at hcases
      rw [hdone hphase r t hrun]
      rcases hcases with ⟨e', hrefused⟩ | ⟨hallowed, haction⟩
      · cases (Prod.ext_iff.1 hrefused).1
      · exact hok r t hallowed hphase haction.symm

theorem outcome_creating {x : Step Store Address} (hx : k.direct c = .made <$> x) (w : Work) :
    Outcome c w k ((Answer.made <$> creating x).on w) := by
  refine outcome_at_once (f := fun a b => (b.recordCreated a).2) hx
    Transaction.on_ensureOpen_bind ?_ ?_ fun _ _ => .made
  · intro hopen f t hrun
    rw [on_creating hopen, hrun]
  · intro hopen a t hrun
    rw [on_creating hopen, hrun]

theorem outcome_erase (c : Session) (a : Address) (w : Work) :
    Outcome c w (.erase a) ((Answer.erased <$> Draft.erase c a).on w) := by
  refine outcome_at_once (f := fun as b => b.removeAll as) rfl Transaction.on_ensureOpen_bind ?_ ?_
    fun _ _ => .erased
  · intro hopen f t hrun
    rw [on_erase hopen, hrun]
  · intro hopen as t hrun
    rw [on_erase hopen, hrun]

/-- A question on the way may refuse the call. -/
theorem outcome_asking {β : Type} {f : Work → Except Failure β} {x : β → Step Work Unit}
    (h : ∀ r, f w = .ok r → Outcome c w k (((fun _ => .done) <$> x r).on w)) :
    Outcome c w k (((fun _ => .done) <$> (Step.ask f >>= x)).on w) := by
  rw [Step.on_map]
  rcases Step.ask_bind_cases f x w with ⟨r, hr, hrun⟩ | ⟨e, hrefused⟩
  · rw [hrun, ← Step.on_map (f := fun _ => Answer.done)]
    exact h r hr
  · rw [hrefused]
    exact .refused e

theorem outcome_staging {f : Staging → Staging}
    (h : w.1.isOpen = true →
      Outcome c w k (.ok .done, ({ w.1 with phase := .active, staged := f w.1.staged }, w.2))) :
    Outcome c w k (((fun _ => .done) <$> Work.onTransaction (Transaction.stage f)).on w) := by
  rw [Step.on_map, Work.on_onTransaction]
  rcases on_stage (x := w.1) f with ⟨e, hrefused⟩ | ⟨hopen, hrun⟩
  · rw [hrefused]
    exact .refused e
  · rw [hrun]
    exact h hopen

theorem outcome (c : Session) (k : Call) (w : Work) : Outcome c w k ((k.run c).on w) := by
  cases k with
  | addNode type => exact outcome_creating rfl w
  | addLink type => exact outcome_creating rfl w
  | connect type source target => exact outcome_creating rfl w
  | erase a => exact outcome_erase c a w
  | narrow a type =>
    refine outcome_asking (f := fun w => c.requireWrite w.2 a) fun _ hwrite => ?_
    refine outcome_asking (f := fun w => typeOf c w a) fun shown _ => ?_
    cases shown.narrow? type with
    | none => exact .refused (.invalidType .notNarrower)
    | some m =>
      refine outcome_asking (f := Except.ok) fun w' hw' => ?_
      obtain rfl := Except.ok.inj hw'
      exact outcome_staging (.narrowed (Session.requireWrite_iff.1 hwrite))
  | setAccess a access =>
    refine outcome_asking (f := fun w => c.requireWrite w.2 a) fun _ hwrite => ?_
    refine outcome_asking (f := Except.ok) fun w' hw' => ?_
    obtain rfl := Except.ok.inj hw'
    exact outcome_staging (.levels (Session.requireWrite_iff.1 hwrite))
  | setContent a bytes =>
    refine outcome_asking (f := fun w => c.requireWrite w.2 a) fun _ hwrite => ?_
    refine outcome_asking (f := fun w => w.2.requireLink a) fun _ _ => ?_
    exact outcome_staging (.content (Session.requireWrite_iff.1 hwrite))

end Draft.Call

/-! ## Staging -/

/-- What sessions stage is recorded, and the levels among it are in use. -/
structure Staging.Proper (b : Staging) : Prop where
  recorded : b.Recorded
  inUse : ∀ a, ∀ l ∈ (b.revisionOf a).access, l.InUse

namespace Staging.Proper

variable {b : Staging} {a : Address}

theorem nothing : Proper {} where
  recorded := .nothing
  inUse a l hl := by cases hl

theorem staging_inUse (h : b.Proper) : b.InUse := by
  intro p hp l hl
  have hlookup := (Assoc.mem_iff_lookup h.recorded.distinct.revisions).1 hp
  rw [← revisionOf_eq_some hlookup] at hl
  exact h.inUse p.1 l hl

theorem created (h : b.Proper) (a : Address) : (b.recordCreated a).2.Proper :=
  ⟨h.recorded.created a, h.inUse⟩

theorem removeAll (h : b.Proper) (as : List Address) : (b.removeAll as).Proper where
  recorded := h.recorded.removeAll as
  inUse a l hl := by
    rw [revisionOf, revision?_removeAll] at hl
    split at hl
    · cases hl
    · exact h.inUse a l hl

theorem revision {r : Revision} (h : b.Proper) (a : Address) (hr : ∀ l ∈ r.access, l.InUse) :
    (b.recordRevision a r).Proper where
  recorded := h.recorded.revision a r
  inUse c l hl := by
    rw [revisionOf_recordRevision] at hl
    split at hl
    · exact hr l hl
    · exact h.inUse c l hl

theorem content (h : b.Proper) (a : Address) (bytes : Bytes) : (b.recordContent a bytes).Proper :=
  ⟨h.recorded.content a bytes, h.inUse⟩

end Staging.Proper

namespace Draft.Call

variable {c : Session} {w : Work} {k : Call} {p : Except Failure Answer × Work}

theorem admissible_action (hc : c.levels.InUse) (hk : k.Admissible) :
    (k.action c).Admissible := by
  cases k with
  | addNode type | addLink type | connect type source target => exact hc
  | setAccess a access => exact hk
  | erase a | narrow a type | setContent a bytes => trivial

theorem Outcome.proper (h : Outcome c w k p) (hw : w.1.staged.Proper) (hk : k.Admissible) :
    p.2.1.staged.Proper := by
  cases h with
  | refused f | failed _ _ => exact hw
  | made _ _ _ => exact hw.created _
  | erased _ _ _ => exact hw.removeAll _
  | narrowed _ _ => exact hw.revision _ (hw.inUse _)
  | levels _ _ =>
    refine hw.revision _ fun l hl => ?_
    cases hl
    exact hk
  | content _ _ => exact hw.content _ _

end Draft.Call

/-- What a session does to a store that was reached reaches the next one. -/
theorem Reached.direct {allowed : Settings → Prop} {made : List Address} {s : Store} {c : Session}
    (h : Reached allowed made s) (hc : c.levels.InUse) {k : Draft.Call} (hk : k.Admissible) :
    Reached allowed (madeBy ((k.direct c).on s).1 ++ made) ((k.direct c).on s).2 := by
  rcases k.direct_cases c s with ⟨f, hrun⟩ | ⟨-, hrun⟩
  · rw [hrun]
    exact h
  · rw [hrun]
    exact h.act _ (Draft.Call.admissible_action hc hk)

namespace Transaction

/-- A transaction that is finished stays as it is; a commit finishes an open one or leaves what is
staged. -/
theorem commit_turns (x : Transaction) (s : Store) :
    (x.isOpen = false ∧ (commit.on (x, s)).2.1 = x) ∨
      x.isOpen = true ∧ ((commit.on (x, s)).2.1 = { x with phase := .committed, staged := {} } ∨
        (commit.on (x, s)).2.1 = { x with phase := .active }) := by
  cases hopen : x.isOpen with
  | false =>
    refine .inl ⟨rfl, ?_⟩
    rw [commit_finished hopen]
  | true =>
    refine .inr ⟨rfl, ?_⟩
    rw [commit, Step.on_bind, Work.on_onTransaction, Step.on_ask, ensureOpen_ok hopen]
    simp only [Step.on_bind, Step.on_tryCatch, Step.on_ask, Work.on_onStore]
    cases s.plan x.staged with
    | error f => exact .inr rfl
    | ok ks =>
      dsimp only
      rcases (Store.applyAll ks).on s with ⟨f | u, s'⟩
      · exact .inr rfl
      · exact .inl rfl

theorem rollback_turns (x : Transaction) :
    (x.isOpen = false ∧ (rollback.on x).2 = x) ∨
      x.isOpen = true ∧ (rollback.on x).2 = { x with phase := .rolledBack, staged := {} } := by
  obtain ⟨id, phase, staged⟩ := x
  cases phase with
  | created | active => exact .inr ⟨rfl, rfl⟩
  | committed | rolledBack => exact .inl ⟨rfl, rfl⟩

end Transaction

end SemanticNet
