import SemanticNet.Proofs.Sharing

/-!
# Changes of elements that are gone

A transaction knows the elements that it changes by their addresses. When someone else erases one of
them, the transaction can not be committed any more, as long as the address is not given to another
element (`Reached.commit_refused_after_erasure`). An address that was freed is the next one to be
given, and then the commit goes through and changes the new element (`commit_changes_new_element`).
-/

namespace SemanticNet

/-! ## What waits for an address -/

/-- Something waits for the element at `a`. -/
def Staging.Holds (b : Staging) (a : Address) : Prop :=
  (b.revision? a).isSome ∨ (b.content? a).isSome

namespace Staging.Holds

variable {b : Staging} {a c : Address}

theorem removeAll {as : List Address} (h : b.Holds a) (ha : a ∉ as) : (b.removeAll as).Holds a := by
  rw [Holds, revision?_removeAll, content?_removeAll, if_neg ha, if_neg ha]
  exact h

theorem revision {r : Revision} (h : b.Holds a ∨ c = a) : (b.recordRevision c r).Holds a := by
  unfold Holds
  rw [revision?_recordRevision]
  by_cases hac : a = c
  · left
    rw [if_pos hac]
    rfl
  · rw [if_neg hac]
    exact h.resolve_right (Ne.symm hac)

theorem content {bytes : Bytes} (h : b.Holds a ∨ c = a) : (b.recordContent c bytes).Holds a := by
  unfold Holds
  rw [content?_recordContent]
  by_cases hac : a = c
  · right
    rw [if_pos hac]
    rfl
  · rw [if_neg hac]
    exact h.resolve_right (Ne.symm hac)

end Staging.Holds

/-- The store does not accept a change of an element that is not there. -/
theorem Store.not_accepts_of_dead {s : Store} {b : Staging} {a : Address} (hd : b.Distinct)
    (hb : b.Holds a) (ha : s.arena.find? a = none) : ¬s.Accepts b := by
  intro h
  rcases hb with hr | hc
  · obtain ⟨r, hr⟩ := Option.isSome_iff_exists.1 hr
    obtain ⟨e, he, -⟩ := h.revisions a r ((Assoc.mem_iff_lookup hd.revisions).2 hr)
    cases ha.symm.trans he
  · obtain ⟨bytes, hbytes⟩ := Option.isSome_iff_exists.1 hc
    have hlink := h.contents a bytes ((Assoc.mem_iff_lookup hd.contents).2 hbytes)
    simp [Arena.isLinkAt, ha] at hlink

namespace Draft.Call

variable {c : Session} {w : Work} {k : Call} {p : Except Failure Answer × Work} {a : Address}

/-- The call is to stage a change of the element at `a`. -/
def Stages : Call → Address → Prop
  | narrow b _, a | setAccess b _, a | setContent b _, a => b = a
  | addNode _, _ | addLink _, _ | connect _ _ _, _ | erase _, _ => False

/-- What waits for `a` goes on waiting unless the transaction erases `a` itself. -/
theorem Outcome.holds (h : Outcome c w k p) (hw : w.1.staged.Holds a)
    (hkept : ∀ as, p.1 = .ok (.erased as) → a ∉ as) : p.2.1.staged.Holds a := by
  cases h with
  | refused f | failed _ _ | made _ _ _ => exact hw
  | erased _ _ _ => exact hw.removeAll (hkept _ rfl)
  | narrowed _ _ | levels _ _ => exact .revision (.inl hw)
  | content _ _ => exact .content (.inl hw)

theorem Outcome.holds_of_stages (h : Outcome c w k p) (hp : p.1 = .ok .done)
    (hk : k.Stages a) : p.2.1.staged.Holds a := by
  cases h with
  | refused f | failed _ _ | made _ _ _ | erased _ _ _ => cases hp
  | narrowed _ _ | levels _ _ => exact .revision (.inr hk)
  | content _ _ => exact .content (.inr hk)

/-- A finished transaction takes no calls. -/
theorem Outcome.eq_of_closed (h : Outcome c w k p) (hw : w.1.isOpen = false) : p.2.1 = w.1 := by
  cases h with
  | refused f | failed _ _ => rfl
  | made _ hopen _ | erased _ hopen _ | narrowed _ hopen | levels _ hopen | content _ hopen =>
    cases hw.symm.trans hopen

end Draft.Call

namespace Office

variable {o : Office} {e : Deed} {es : List Deed} {i : Nat} {c : Session} {x : Transaction}
  {a : Address} {k : Draft.Call}

/-- The draft is finished, or something waits in it for the element at `a`. -/
def Awaits (o : Office) (i : Nat) (a : Address) : Prop :=
  ∃ c x, o.drafts[i]? = some (c, x) ∧ (x.isOpen = true → x.staged.Holds a)

theorem awaits_of_stages (hdone : (o.perform (.draft i k)).1 = .ok .done) (hk : k.Stages a) :
    (o.perform (.draft i k)).2.Awaits i a := by
  cases hx : o.drafts[i]? with
  | none =>
    have hrefused : o.perform (.draft i k) = _ := work_of_none hx
    rw [hrefused] at hdone
    cases hdone
  | some p =>
    obtain ⟨c, x⟩ := p
    have hanswer := (work_of_some (f := k.run) hx).1.symm.trans hdone
    exact ⟨c, _, getElem?_work hx, fun _ =>
      (Draft.Call.outcome c k (x, o.desk.store)).holds_of_stages hanswer hk⟩

/-- A draft goes on waiting until its transaction is finished or erases `a` itself. -/
theorem Awaits.perform (h : o.Awaits i a)
    (hkept : ∀ k as, e = .draft i k → (o.perform e).1 = .ok (.erased as) → a ∉ as) :
    (o.perform e).2.Awaits i a := by
  obtain ⟨c, x, hx, hawaits⟩ := h
  obtain ⟨x', hx', hmoves⟩ := draft_cases (e := e) hx
  refine ⟨c, x', hx', fun hopen' => ?_⟩
  rcases hmoves.cases with ⟨hstaged, hopen⟩ | ⟨-, hclosed⟩ | ⟨k, rfl, rfl⟩
  · rw [hstaged]
    exact hawaits (hopen ▸ hopen')
  · cases hclosed.symm.trans hopen'
  · have houtcome := Draft.Call.outcome c k (x, o.desk.store)
    have hanswer : (o.perform (.draft i k)).1 = _ := (work_of_some (f := k.run) hx).1
    by_cases hopen : x.isOpen = true
    · exact houtcome.holds (hawaits hopen) fun as has => hkept k as rfl (hanswer.trans has)
    · rw [houtcome.eq_of_closed (by simpa using hopen)] at hopen'
      exact absurd hopen' hopen

/-- As long as nothing at `a` is erased, the draft goes on waiting. -/
theorem Awaits.after (h : o.Awaits i a)
    (hkept : ∀ as, .ok (.erased as) ∈ o.answers es → a ∉ as) : (o.after es).Awaits i a := by
  induction es generalizing o with
  | nil => exact h
  | cons e es ih =>
    refine ih (h.perform fun k as _ has => hkept as ?_) fun as has =>
      hkept as (List.mem_cons_of_mem _ has)
    exact has ▸ List.mem_cons_self

/-! ## Addresses that are free -/

theorem dead_of_erased {as : List Address} (ho : o.Orderly) (he : e.Admissible)
    (herased : (o.perform e).1 = .ok (.erased as)) (ha : a ∈ as) :
    (o.desk.store.arena.find? a).isSome ∧ (o.perform e).2.desk.store.arena.find? a = none := by
  obtain ⟨made, hrest⟩ := ho.rest
  rcases o.store_cases e with ⟨-, -, hnot⟩ | ⟨k, hcomes, hrun⟩
  · exact absurd herased (hnot as)
  · have hanswer : (k.run.on o.desk.store).1 = .ok (.erased as) := by
      rw [hrun]
      exact herased
    have hcases := Action.erased_cases (hcomes.admissible ho he) hrest hanswer ha
    rw [hrun] at hcases
    exact hcases

theorem dead_perform (ho : o.Orderly) (he : e.Admissible)
    (ha : o.desk.store.arena.find? a = none) (hnew : (o.perform e).1 ≠ .ok (.made a)) :
    (o.perform e).2.desk.store.arena.find? a = none := by
  obtain ⟨made, hrest⟩ := ho.rest
  rcases o.store_cases e with ⟨hsame, -, -⟩ | ⟨k, hcomes, hrun⟩
  · rw [hsame]
    exact ha
  · have hgone := Action.find?_run_eq_none (hcomes.admissible ho he) hrest ha
    rw [hrun] at hgone
    exact hgone hnew

/-- As long as no element is made at `a`, there is none, and the draft goes on waiting for it. -/
theorem Awaits.after_of_dead (h : o.Awaits i a) (ho : o.Orderly) (hes : ∀ e ∈ es, e.Admissible)
    (ha : o.desk.store.arena.find? a = none) (hnew : .ok (.made a) ∉ o.answers es) :
    (o.after es).Awaits i a ∧ (o.after es).desk.store.arena.find? a = none := by
  induction es generalizing o with
  | nil => exact ⟨h, ha⟩
  | cons e es ih =>
    have he := hes e List.mem_cons_self
    have hdead := dead_perform ho he ha fun hmade => hnew (hmade ▸ List.mem_cons_self)
    have hawaits : (o.perform e).2.Awaits i a := by
      refine h.perform fun k as _ herased has => ?_
      -- what is erased was there
      have hlive := (dead_of_erased ho he herased has).1
      rw [ha] at hlive
      cases hlive
    exact ih hawaits (ho.perform he) (fun e' he' => hes e' (List.mem_cons_of_mem e he')) hdead
      fun hmade => hnew (List.mem_cons_of_mem _ hmade)

/-- A commit of the draft fails and leaves the store as it is. -/
def Refuses (o : Office) (i : Nat) : Prop :=
  ∃ f, (o.perform (.commit i)).1 = .error f ∧
    (o.perform (.commit i)).2.desk.store = o.desk.store

/-- A commit is refused when something waits for an element that is not there. -/
theorem Awaits.refuses (h : o.Awaits i a) (ho : o.Orderly)
    (ha : o.desk.store.arena.find? a = none) : o.Refuses i := by
  obtain ⟨c, x, hx, hawaits⟩ := h
  obtain ⟨made, hrest⟩ := ho.rest
  have hdistinct := (ho.drafts i c x hx).2.recorded.distinct
  have hrefused : ∃ f, (Transaction.commit.on (x, o.desk.store)).1 = .error f ∧
      (Transaction.commit.on (x, o.desk.store)).2.2 = o.desk.store := by
    rcases Transaction.commit_done_or_refused hrest.sound.tidy hdistinct with
      ⟨hopen, haccepts, -⟩ | ⟨f, x', hrun⟩
    · exact absurd haccepts (Store.not_accepts_of_dead hdistinct (hawaits hopen) ha)
    · rw [hrun]
      exact ⟨f, rfl, rfl⟩
  obtain ⟨f, hanswer, hstore⟩ := hrefused
  obtain ⟨hanswer', hstore', -⟩ :=
    work_of_some (f := fun _ => (fun _ => .done) <$> Transaction.commit) hx
  rw [Step.on_map] at hanswer' hstore'
  exact ⟨f, hanswer'.trans (by rw [hanswer]; rfl), hstore'.trans hstore⟩

/-- The call `k` stages a change of the element at `a` in the draft `i`; and after the deeds `es`
this same element is erased by the deed `e`, which is not one of that transaction. -/
structure Lapses (o : Office) (i : Nat) (k : Draft.Call) (es : List Deed) (e : Deed)
    (a : Address) : Prop where
  stages : k.Stages a
  staged : (o.perform (.draft i k)).1 = .ok .done
  kept : ∀ as, .ok (.erased as) ∈ (o.perform (.draft i k)).2.answers es → a ∉ as
  outside : ∀ l, e ≠ .draft i l
  erased : ∃ as, ((o.after (.draft i k :: es)).perform e).1 = .ok (.erased as) ∧ a ∈ as

theorem Lapses.awaits (h : o.Lapses i k es e a) (ho : o.Orderly)
    (hes : ∀ e' ∈ .draft i k :: (es ++ [e]), e'.Admissible) :
    (o.after (.draft i k :: (es ++ [e]))).Awaits i a ∧
      (o.after (.draft i k :: (es ++ [e]))).desk.store.arena.find? a = none := by
  have hsplit : o.after (.draft i k :: (es ++ [e]))
      = ((o.after (.draft i k :: es)).perform e).2 := by
    rw [← List.cons_append, after_append]
    rfl
  have hafter : (o.after (.draft i k :: es)).Orderly := ho.after fun e' he' => by
    rw [← List.cons_append] at hes
    exact hes e' (List.mem_append_left _ he')
  have hawaits : (o.after (.draft i k :: es)).Awaits i a :=
    (awaits_of_stages h.staged h.stages).after h.kept
  obtain ⟨as, herased, ha⟩ := h.erased
  rw [hsplit]
  constructor
  · exact hawaits.perform fun l _ he _ => absurd he (h.outside l)
  · exact (dead_of_erased hafter (hes e (by simp)) herased ha).2

end Office

/-- A session has begun a transaction. -/
def begunOffice : Office := (Office.ofDesk sampleDesk).after [.begin ⟨.lowest⟩]

/-- The transaction stages new levels for the first node of the sample, which is erased then. -/
def lapsingDeeds : List Deed :=
  [.draft 0 (.setAccess ⟨1, 1⟩ .highest), .direct ⟨.lowest⟩ (.erase ⟨1, 1⟩)]

theorem admissible_lapsingDeeds : ∀ e ∈ lapsingDeeds, e.Admissible := by
  simp [lapsingDeeds, Deed.Admissible, Draft.Call.Admissible, Access.inUse_lowest,
    Access.inUse_highest]

theorem lapses_begunOffice : begunOffice.Lapses 0 (.setAccess ⟨1, 1⟩ .highest) []
    (.direct ⟨.lowest⟩ (.erase ⟨1, 1⟩)) ⟨1, 1⟩ where
  stages := rfl
  staged := by decide +kernel
  kept as has := by cases has
  outside l h := by cases h
  erased := ⟨[⟨1, 6⟩, ⟨1, 4⟩, ⟨1, 5⟩, ⟨1, 1⟩], by decide +kernel, by decide⟩

/-- A node that is made next gets the address of the one that was erased. The commit goes through,
and the new node has the levels that were staged for the old one. -/
theorem commit_changes_new_element :
    (Reached (· = .small) sampleMade sampleDesk.store ∧ (∀ e ∈ lapsingDeeds, e.Admissible) ∧
      begunOffice.Lapses 0 (.setAccess ⟨1, 1⟩ .highest) [] (.direct ⟨.lowest⟩ (.erase ⟨1, 1⟩))
        ⟨1, 1⟩) ∧
    (begunOffice.after lapsingDeeds).answers [.direct ⟨.lowest⟩ (.addNode .const)]
      = [.ok (.made ⟨1, 1⟩)] ∧
    ¬(begunOffice.after (lapsingDeeds ++ [.direct ⟨.lowest⟩ (.addNode .const)])).Refuses 0 ∧
    (((begunOffice.after (lapsingDeeds ++ [.direct ⟨.lowest⟩ (.addNode .const)])).perform
      (.commit 0)).2.desk.store.arena.find? ⟨1, 1⟩).map (·.access) = some .highest := by
  refine ⟨⟨reached_sampleDesk, admissible_lapsingDeeds, lapses_begunOffice⟩, by decide +kernel, ?_,
    by decide +kernel⟩
  intro h
  obtain ⟨f, hrefused, -⟩ := h
  have hdone : ((begunOffice.after
      (lapsingDeeds ++ [.direct ⟨.lowest⟩ (.addNode .const)])).perform (.commit 0)).1
      = .ok .done := by
    decide +kernel
  rw [hdone] at hrefused
  cases hrefused

/-- Whatever was reached before any transaction was begun, and whatever sessions and others do then:
when the element that a staged change is for was erased outside of the transaction, the commit fails
and leaves the store as it is, unless an element was made at that address since. -/
theorem Reached.commit_refused_after_erasure {allowed : Settings → Prop} {made : List Address}
    {d : Desk} {es es₁ es₂ : List Deed} {i : Nat} {k : Draft.Call} {e : Deed} {a : Address}
    (h : Reached allowed made d.store) (hes : ∀ e' ∈ es, e'.Admissible)
    (hes' : ∀ e' ∈ .draft i k :: (es₁ ++ [e]) ++ es₂, e'.Admissible)
    (hlapses : ((Office.ofDesk d).after es).Lapses i k es₁ e a)
    (hnew : .ok (.made a) ∉
      (((Office.ofDesk d).after es).after (.draft i k :: (es₁ ++ [e]))).answers es₂) :
    (((Office.ofDesk d).after es).after (.draft i k :: (es₁ ++ [e]) ++ es₂)).Refuses i := by
  have ho := (Office.orderly_ofDesk h).after hes
  have hbefore : ∀ e' ∈ .draft i k :: (es₁ ++ [e]), e'.Admissible := fun e' he' =>
    hes' e' (List.mem_append_left es₂ he')
  have hlater : ∀ e' ∈ es₂, e'.Admissible := fun e' he' => hes' e' (List.mem_append_right _ he')
  obtain ⟨hawaits, hdead⟩ := hlapses.awaits ho hbefore
  rw [Office.after_append]
  obtain ⟨hawaits', hdead'⟩ := hawaits.after_of_dead (ho.after hbefore) hlater hdead hnew
  exact hawaits'.refuses ((ho.after hbefore).after hlater) hdead'

/-- Another node is erased, and the node that is made next gets the address of that one. -/
theorem Reached.commit_refused_after_erasure_begunOffice :
    (Reached (· = .small) sampleMade sampleDesk.store ∧
      begunOffice.Lapses 0 (.setAccess ⟨1, 1⟩ .highest) [] (.direct ⟨.lowest⟩ (.erase ⟨1, 1⟩))
        ⟨1, 1⟩) ∧
    (begunOffice.after lapsingDeeds).answers
        [.direct ⟨.highest⟩ (.erase ⟨1, 2⟩), .direct ⟨.lowest⟩ (.addNode .const)]
      = [.ok (.erased [⟨1, 2⟩]), .ok (.made ⟨1, 2⟩)] ∧
    (begunOffice.after (lapsingDeeds ++
      [.direct ⟨.highest⟩ (.erase ⟨1, 2⟩), .direct ⟨.lowest⟩ (.addNode .const)])).Refuses 0 := by
  have hanswers : (begunOffice.after lapsingDeeds).answers
      [.direct ⟨.highest⟩ (.erase ⟨1, 2⟩), .direct ⟨.lowest⟩ (.addNode .const)]
      = [.ok (.erased [⟨1, 2⟩]), .ok (.made ⟨1, 2⟩)] := by
    decide +kernel
  have hnew : .ok (.made ⟨1, 1⟩) ∉ (begunOffice.after lapsingDeeds).answers
      [.direct ⟨.highest⟩ (.erase ⟨1, 2⟩), .direct ⟨.lowest⟩ (.addNode .const)] := by
    rw [hanswers]
    decide
  refine ⟨⟨reached_sampleDesk, lapses_begunOffice⟩, hanswers, ?_⟩
  -- nothing happens between the call and the erasure
  have hdeeds : lapsingDeeds = .draft 0 (.setAccess ⟨1, 1⟩ .highest) ::
      ([] ++ [.direct ⟨.lowest⟩ (.erase ⟨1, 1⟩)]) := rfl
  have hadmissible := admissible_lapsingDeeds
  rw [hdeeds] at hnew hadmissible ⊢
  refine reached_sampleDesk.commit_refused_after_erasure ?_ ?_ lapses_begunOffice hnew
  · simp [Deed.Admissible, Access.inUse_lowest]
  · intro e he
    rcases List.mem_append.1 he with he | he
    · exact hadmissible e he
    · revert e
      simp [Deed.Admissible, Draft.Call.Admissible, Access.inUse_lowest, Access.inUse_highest]

end SemanticNet
