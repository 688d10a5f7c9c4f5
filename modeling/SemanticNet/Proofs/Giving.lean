import SemanticNet.Proofs.Holding
import SemanticNet.Proofs.Staleness

/-!
# The last content of a link

Only links have contents, and a search finds the links by what they have. A link that is made, also
where another link was before, has no content until one is set or committed for it, and from then on
it has the last one (`Office.Lived.keeps_contents`). There are two conditions on this. When the link
is made, no transaction may have a content staged for the link that was at its address before: a
commit would give it to the new one (`commit_fills_new_link`). And a dump keeps the length of a
content in four bytes, so what is saved and loaded must be shorter than that.
-/

namespace SemanticNet

/-! ## What happens over time -/

/-- What happens at a desk: a deed with the answer to it; or the store is saved, and what is loaded
of the dump takes its place. -/
inductive Occurrence where
  | deed (e : Deed) (r : Except Failure Answer)
  | reload (saved : Store)

/-- A commit that is not one of the drafts of the office applies what was recorded. -/
def Deed.StagedByRecording : Deed → Prop
  | .act k => k.StagedByRecording
  | .begin _ | .direct _ _ | .draft _ _ | .commit _ | .rollback _ => True

/-- The content that a deed with this answer stages for what is at `a`, in the draft `i`. -/
def Deed.stages? (i : Nat) (a : Address) : Deed → Except Failure Answer → Option Bytes
  | .draft j (.setContent b bytes), .ok .done => if j = i ∧ a = b then some bytes else none
  | _, _ => none

/-- The content that was staged last for what is at `a`, in the draft `i`. The last event comes
first, and with the store that is loaded there are no drafts yet. -/
def stagedLast (i : Nat) (a : Address) : List Occurrence → Option Bytes
  | [] | .reload _ :: _ => none
  | .deed e r :: earlier => (e.stages? i a r).or (stagedLast i a earlier)

/-- The content that a deed with this answer gives what is at `a`, after these events. A commit
gives what was staged last. -/
def Deed.gives? (a : Address) (earlier : List Occurrence) :
    Deed → Except Failure Answer → Option Bytes
  | .direct c k, r => LogEntry.given? a (k.action c, r)
  | .act k, r => LogEntry.given? a (k, r)
  | .commit i, .ok _ => stagedLast i a earlier
  | _, _ => none

/-- The content that was given last to what is at `a`. The last event comes first. -/
def givenLast (a : Address) : List Occurrence → Option Bytes
  | [] => none
  | .reload _ :: earlier => givenLast a earlier
  | .deed e r :: earlier => (e.gives? a earlier r).or (givenLast a earlier)

namespace Office

/-- What comes of an office by these events, the last one first. Metrics may count in between. -/
inductive Leads (allowed : Settings → Prop) (o₁ : Office) : List Occurrence → Office → Prop where
  | refl : Leads allowed o₁ [] o₁
  | deed {log : List Occurrence} {o : Office} (e : Deed) (he : e.Admissible)
      (hstaged : e.StagedByRecording) (h : Leads allowed o₁ log o) :
      Leads allowed o₁ (.deed e (o.perform e).1 :: log) (o.perform e).2
  | counted {log : List Occurrence} {o : Office} (m : Option Metrics) (h : Leads allowed o₁ log o) :
      Leads allowed o₁ log { o with desk.store.metrics := m }
  | reload {log : List Occurrence} {o : Office} {d : Desk} {c : Settings} {y : Dump.Summary}
      (check : Bytes → UInt32) (hc : allowed c) (h : Leads allowed o₁ log o)
      (hload : Dump.decode check c (Dump.encode check o.desk.store) = .ok (d.store, y)) :
      Leads allowed o₁ (.reload o.desk.store :: log) (ofDesk d)

/-- The offices that come about from a new store. -/
def Lived (allowed : Settings → Prop) (o : Office) : Prop :=
  ∃ c ledger log, allowed c ∧ Leads allowed (ofDesk { ledger, store := .ofSettings c }) log o

/-- The events of deeds that follow each other, the last one first. -/
def events (o : Office) : List Deed → List Occurrence
  | [] => []
  | e :: es => (o.perform e).2.events es ++ [.deed e (o.perform e).1]

/-- No content waits in a transaction for what is at `a`. -/
def Clear (o : Office) (a : Address) : Prop :=
  ∀ (i : Nat) (c : Session) (x : Transaction), o.drafts[i]? = some (c, x) → x.isOpen = true →
    x.staged.content? a = none

variable {allowed : Settings → Prop} {o o₁ o₂ : Office} {e : Deed} {es : List Deed} {i : Nat}
  {c : Session} {x : Transaction} {a : Address} {made : List Address} {log log' : List Occurrence}

/-- What was reached is reached after one more deed. -/
theorem reached_perform (ho : o.Orderly) (hreached : ∃ made, Reached allowed made o.desk.store)
    (he : e.Admissible) : ∃ made, Reached allowed made (o.perform e).2.desk.store := by
  obtain ⟨made, hreached⟩ := hreached
  rcases o.store_cases e with ⟨hsame, -, -⟩ | ⟨k, hcomes, hrun⟩
  · exact ⟨made, hsame ▸ hreached⟩
  · have hnext := hreached.act k (hcomes.admissible ho he)
    rw [hrun] at hnext
    exact ⟨_, hnext⟩

namespace Leads

theorem trans (h : Leads allowed o₁ log o₂) (h' : Leads allowed o₂ log' o) :
    Leads allowed o₁ (log' ++ log) o := by
  induction h' with
  | refl => exact h
  | deed e he hstaged _ ih => exact ih.deed e he hstaged
  | counted m _ ih => exact ih.counted m
  | reload check hc _ hload ih => exact ih.reload check hc hload

theorem after (hes : ∀ e ∈ es, e.Admissible) (hstaged : ∀ e ∈ es, e.StagedByRecording) :
    Leads allowed o (o.events es) (o.after es) := by
  induction es generalizing o with
  | nil => exact .refl
  | cons e es ih =>
    have hfirst : Leads allowed o [.deed e (o.perform e).1] (o.perform e).2 :=
      .deed e (hes e List.mem_cons_self) (hstaged e List.mem_cons_self) .refl
    exact hfirst.trans (ih (fun e' he' => hes e' (List.mem_cons_of_mem e he'))
      fun e' he' => hstaged e' (List.mem_cons_of_mem e he'))

/-- The stores on the way are reached, and the offices are orderly. -/
theorem reached (h : Leads allowed o₁ log o) (ho : o₁.Orderly)
    (h₁ : ∃ made, Reached allowed made o₁.desk.store) :
    o.Orderly ∧ ∃ made, Reached allowed made o.desk.store := by
  induction h with
  | refl => exact ⟨ho, h₁⟩
  | @deed log o e he _ _ ih =>
    exact ⟨ih.1.perform he, reached_perform ih.1 ih.2 he⟩
  | counted m _ ih =>
    obtain ⟨ho, made, hreached⟩ := ih
    exact ⟨⟨⟨made, (hreached.counted m).atRest⟩, ho.drafts⟩, made, hreached.counted m⟩
  | reload check hc _ hload ih =>
    obtain ⟨-, made, hreached⟩ := ih
    have hnext := Reached.loaded check hc hreached hload
    exact ⟨orderly_ofDesk hnext, made, hnext⟩

end Leads

theorem Lived.reached (h : Lived allowed o) :
    o.Orderly ∧ ∃ made, Reached allowed made o.desk.store := by
  obtain ⟨c, ledger, log, hc, hleads⟩ := h
  have hfresh : Reached allowed [] (.ofSettings c) := .fresh hc
  exact hleads.reached (orderly_ofDesk hfresh) ⟨[], hfresh⟩

end Office

/-! ## One deed -/

theorem LogEntry.given?_error (a : Address) (k : Action) (f : Failure) :
    given? a (k, .error f) = none := by
  cases k <;> rfl

theorem LogEntry.given?_made (a b : Address) (k : Action) : given? a (k, .ok (.made b)) = none := by
  cases k <;> rfl

theorem LogEntry.given?_erased (a : Address) (k : Action) (as : List Address) :
    given? a (k, .ok (.erased as)) = none := by
  cases k <;> rfl

theorem Draft.Call.stagedByRecording_action (k : Draft.Call) (c : Session) :
    (k.action c).StagedByRecording := by
  cases k <;> trivial

namespace Deed

variable {e : Deed} {i : Nat} {a : Address} {earlier : List Occurrence} {f : Failure}

theorem stages?_error : e.stages? i a (.error f) = none := by
  unfold stages?
  split <;> simp_all

theorem stages?_made {b : Address} : e.stages? i a (.ok (.made b)) = none := by
  unfold stages?
  split <;> simp_all

theorem gives?_error : e.gives? a earlier (.error f) = none := by
  cases e with
  | direct c k => exact LogEntry.given?_error a _ f
  | act k => exact LogEntry.given?_error a k f
  | begin | draft | commit | rollback => rfl

/-- Only a call on the draft stages something in it. -/
theorem stages?_other {r : Except Failure Answer} (he : ∀ k, e ≠ .draft i k) :
    e.stages? i a r = none := by
  unfold stages?
  split
  next j b bytes =>
    by_cases hji : j = i
    · exact absurd (hji ▸ rfl) (he (.setContent b bytes))
    · rw [if_neg (fun h => hji h.1)]
  next => rfl

end Deed

/-- What a call on a draft leaves waiting for the content of what is live afterwards. -/
theorem Draft.Call.Outcome.content? {c : Session} {w : Work} {k : Draft.Call} {a : Address}
    {p : Except Failure Answer × Work} (h : Outcome c w k p) (i : Nat)
    (hkept : ∀ as, p.1 = .ok (.erased as) → a ∉ as) :
    p.2.1.staged.content? a
      = ((Deed.draft i k).stages? i a p.1).or (w.1.staged.content? a) := by
  cases h with
  | refused f | failed _ _ =>
    rw [Deed.stages?_error]
    rfl
  | made _ _ _ =>
    cases k <;> rfl
  | erased _ _ _ =>
    show (w.1.staged.removeAll _).content? a = _
    rw [Staging.content?_removeAll, if_neg (hkept _ rfl)]
    cases k <;> rfl
  | narrowed _ _ | levels _ _ => rfl
  | content _ _ =>
    show (w.1.staged.recordContent _ _).content? a = _
    rw [Staging.content?_recordContent]
    simp only [Deed.stages?, true_and]
    split <;> rfl

namespace Office

variable {allowed : Settings → Prop} {o o₁ : Office} {e : Deed} {es : List Deed} {i : Nat}
  {c : Session} {x : Transaction} {a : Address} {made : List Address} {log : List Occurrence}

/-- What was given and what waits, as long as there is an element at `a`. -/
structure Follows (o : Office) (a : Address) (log : List Occurrence) : Prop where
  content : (o.desk.store.arena.find? a).isSome → o.desk.store.contents.get? a = givenLast a log
  waits : (o.desk.store.arena.find? a).isSome → ∀ (i : Nat) (c : Session) (x : Transaction),
    o.drafts[i]? = some (c, x) → x.isOpen = true → x.staged.content? a = stagedLast i a log
  unbegun : ∀ i, o.drafts[i]? = none → stagedLast i a log = none

/-- What is live and was not made just now was live before. -/
theorem live_before (ho : o.Orderly) (he : e.Admissible)
    (hnew : (o.perform e).1 ≠ .ok (.made a))
    (hlive : ((o.perform e).2.desk.store.arena.find? a).isSome) :
    (o.desk.store.arena.find? a).isSome := by
  by_contra hnot
  rw [Option.not_isSome_iff_eq_none] at hnot
  rw [dead_perform ho he hnot hnew] at hlive
  cases hlive

/-- What waits in a draft after a deed was staged by it, or waited before. -/
theorem content?_perform (ho : o.Orderly) (he : e.Admissible)
    (hlive : ((o.perform e).2.desk.store.arena.find? a).isSome)
    (hx : (o.perform e).2.drafts[i]? = some (c, x)) (hopen : x.isOpen = true) :
    (o.drafts[i]? = none ∧ x.staged.content? a = e.stages? i a (o.perform e).1) ∨
      ∃ x₀, o.drafts[i]? = some (c, x₀) ∧ x₀.isOpen = true ∧
        x.staged.content? a = (e.stages? i a (o.perform e).1).or (x₀.staged.content? a) := by
  cases hx₀ : o.drafts[i]? with
  | none =>
    obtain ⟨rfl, rfl⟩ := begun_of_new hx hx₀
    exact .inl ⟨rfl, rfl⟩
  | some p =>
    obtain ⟨c₀, x₀⟩ := p
    by_cases hdraft : ∃ k, e = .draft i k
    · obtain ⟨k, rfl⟩ := hdraft
      have houtcome := Draft.Call.outcome c₀ k (x₀, o.desk.store)
      have hanswer : (o.perform (.draft i k)).1 = _ := (work_of_some (f := k.run) hx₀).1
      have hdraft : (o.perform (.draft i k)).2.drafts[i]? = _ := getElem?_work (f := k.run) hx₀
      obtain ⟨rfl, rfl⟩ := Prod.mk.inj (Option.some.inj (hdraft.symm.trans hx))
      have hopen₀ : x₀.isOpen = true := by
        by_contra hclosed
        rw [houtcome.eq_of_closed (by simpa using hclosed)] at hopen
        exact hclosed hopen
      refine .inr ⟨x₀, rfl, hopen₀, ?_⟩
      rw [hanswer]
      refine houtcome.content? i fun as has hmem => ?_
      -- what the call erased is not live any more
      rw [(dead_of_erased ho he (hanswer.trans has) hmem).2] at hlive
      cases hlive
    · obtain ⟨x', hx', hmoves⟩ := draft_cases (e := e) hx₀
      obtain ⟨rfl, rfl⟩ := Prod.mk.inj (Option.some.inj (hx'.symm.trans hx))
      rw [Deed.stages?_other fun k hk => hdraft ⟨k, hk⟩]
      rcases hmoves.cases with ⟨hstaged, hphase⟩ | ⟨-, hclosed⟩ | ⟨k, rfl, -⟩
      · exact .inr ⟨x₀, rfl, hphase ▸ hopen, by rw [hstaged]; rfl⟩
      · cases hclosed.symm.trans hopen
      · exact absurd ⟨k, rfl⟩ hdraft

/-- What is live after one operation on the store has the content that this gave, or the one from
before. -/
theorem get?_of_run {k : Action} {r : Except Failure Answer} {s : Store} (ho : o.Orderly)
    (hk : k.Admissible) (hstaged : k.StagedByRecording) (hrun : k.run.on o.desk.store = (r, s))
    (hlive : (s.arena.find? a).isSome) :
    s.contents.get? a = (LogEntry.given? a (k, r)).or (o.desk.store.contents.get? a) := by
  obtain ⟨made, hrest⟩ := ho.rest
  have hget := Action.get?_of_stays (a := a) hk hstaged hrest
  rw [hrun] at hget
  exact hget hlive

/-- A call on a draft gives nothing. -/
theorem get?_draft {k : Draft.Call} (ho : o.Orderly) (hk : k.Admissible)
    (hlive : ((o.perform (.draft i k)).2.desk.store.arena.find? a).isSome) :
    (o.perform (.draft i k)).2.desk.store.contents.get? a = o.desk.store.contents.get? a := by
  cases hx : o.drafts[i]? with
  | none =>
    have hrefused : o.perform (.draft i k) = _ := work_of_none hx
    rw [hrefused]
  | some p =>
    obtain ⟨c, x⟩ := p
    have hstore : (o.perform (.draft i k)).2.desk.store = _ := (work_of_some (f := k.run) hx).2.1
    have houtcome := Draft.Call.outcome c k (x, o.desk.store)
    have hadmissible := Draft.Call.admissible_action (ho.drafts i c x hx).1 hk
    have hget : ∀ r s, (k.action c).run.on o.desk.store = (r, s) →
        (s.arena.find? a).isSome → s.contents.get? a
          = (LogEntry.given? a (k.action c, r)).or (o.desk.store.contents.get? a) :=
      fun r s => get?_of_run ho hadmissible (k.stagedByRecording_action c)
    rw [hstore] at hlive ⊢
    generalize (k.run c).on (x, o.desk.store) = p at hlive houtcome
    cases houtcome with
    | refused | narrowed | levels | content => rfl
    | failed _ hrun => rw [hget _ _ hrun hlive, LogEntry.given?_error, Option.none_or]
    | made _ _ hrun => rw [hget _ _ hrun hlive, LogEntry.given?_made, Option.none_or]
    | erased _ _ hrun => rw [hget _ _ hrun hlive, LogEntry.given?_erased, Option.none_or]

/-- A commit of a draft is refused, or the draft was open. -/
theorem commit_answer (ho : o.Orderly) (hx : o.drafts[i]? = some (c, x)) :
    (∃ f, (o.perform (.commit i)).1 = .error f) ∨
      x.isOpen = true ∧ (o.perform (.commit i)).1 = .ok .done := by
  obtain ⟨made, hrest⟩ := ho.rest
  have hrun := run_commit hx
  rw [Action.run, Step.on_map, Step.on_within] at hrun
  rcases Transaction.commit_done_or_refused hrest.sound.tidy
    (ho.drafts i c x hx).2.recorded.distinct with ⟨hopen, -, hcommit⟩ | ⟨f, x', hcommit⟩
  · rw [hcommit] at hrun
    exact .inr ⟨hopen, (congrArg Prod.fst hrun).symm⟩
  · rw [hcommit] at hrun
    exact .inl ⟨f, (congrArg Prod.fst hrun).symm⟩

namespace Follows

/-- What is live after a deed has the content that the deed gave it, or the one from before. -/
theorem get?_perform (h : o.Follows a log) (ho : o.Orderly) (he : e.Admissible)
    (hstaged : e.StagedByRecording)
    (hbefore : (o.desk.store.arena.find? a).isSome)
    (hlive : ((o.perform e).2.desk.store.arena.find? a).isSome) :
    (o.perform e).2.desk.store.contents.get? a
      = (e.gives? a log (o.perform e).1).or (o.desk.store.contents.get? a) := by
  cases e with
  | begin c => rfl
  | rollback i =>
    rcases o.store_cases (.rollback i) with ⟨hsame, -, -⟩ | ⟨l, hcomes, -⟩
    · rw [hsame]
      rfl
    · cases hcomes
  | draft i k => exact get?_draft ho he hlive
  | direct c k =>
    rcases Draft.Call.direct_cases c k o.desk.store with ⟨f, hrefused⟩ | ⟨-, hrun⟩
    · have hanswer : (o.perform (.direct c k)).1 = .error f := congrArg Prod.fst hrefused
      have hstore : (o.perform (.direct c k)).2.desk.store = o.desk.store :=
        congrArg Prod.snd hrefused
      rw [hanswer, hstore, Deed.gives?_error, Option.none_or]
    · exact get?_of_run ho (Draft.Call.admissible_action he.1 he.2) (k.stagedByRecording_action c)
        hrun.symm hlive
  | act k => exact get?_of_run ho he hstaged rfl hlive
  | commit i =>
    cases hx : o.drafts[i]? with
    | none =>
      have hrefused : o.perform (.commit i) = _ :=
        work_of_none (f := fun _ => (fun _ => .done) <$> Transaction.commit) hx
      rw [hrefused, Deed.gives?_error, Option.none_or]
    | some p =>
      obtain ⟨c, x⟩ := p
      have hproper := (ho.drafts i c x hx).2
      have hadmissible : (Action.commit x).Admissible := hproper.staging_inUse
      rw [get?_of_run ho hadmissible hproper.recorded (run_commit hx) hlive]
      rcases commit_answer ho hx with ⟨f, hanswer⟩ | ⟨hopen, hanswer⟩
      · rw [hanswer, LogEntry.given?_error, Deed.gives?_error]
      · rw [hanswer]
        show (x.staged.content? a).or _ = (stagedLast i a log).or _
        rw [h.waits hbefore i c x hx hopen]

/-- A deed that makes nothing at `a` is followed by what it gives and stages. -/
theorem deed (h : o.Follows a log) (ho : o.Orderly) (he : e.Admissible)
    (hstaged : e.StagedByRecording) (hnew : (o.perform e).1 ≠ .ok (.made a)) :
    (o.perform e).2.Follows a (.deed e (o.perform e).1 :: log) where
  content hlive := by
    have hbefore := live_before ho he hnew hlive
    rw [h.get?_perform ho he hstaged hbefore hlive, h.content hbefore]
    rfl
  waits hlive i c x hx hopen := by
    have hbefore := live_before ho he hnew hlive
    rcases content?_perform ho he hlive hx hopen with ⟨hnone, hwaits⟩ | ⟨x₀, hx₀, hopen₀, hwaits⟩
    · rw [hwaits, stagedLast, h.unbegun i hnone, Option.or_none]
    · rw [hwaits, h.waits hbefore i c x₀ hx₀ hopen₀]
      rfl
  unbegun i hnone := by
    have hbefore : o.drafts[i]? = none := by
      cases hx : o.drafts[i]? with
      | none => rfl
      | some p =>
        obtain ⟨x', hx', -⟩ := draft_cases (e := e) hx
        cases hnone.symm.trans hx'
    rw [stagedLast, h.unbegun i hbefore, Option.or_none]
    by_cases hdraft : ∃ k, e = .draft i k
    · -- there is nothing to be staged in a draft that was not begun
      obtain ⟨k, rfl⟩ := hdraft
      have hrefused : o.perform (.draft i k) = _ := work_of_none hbefore
      rw [hrefused, Deed.stages?_error]
    · exact Deed.stages?_other fun k hk => hdraft ⟨k, hk⟩

theorem counted (h : o.Follows a log) (m : Option Metrics) :
    Follows { o with desk.store.metrics := m } a log :=
  ⟨h.content, h.waits, h.unbegun⟩

/-- What is loaded has the contents that were saved, if they are short enough. -/
theorem reload {d : Desk} {settings : Settings} {check : Bytes → UInt32} {y : Dump.Summary}
    (h : o.Follows a log) (ho : o.Orderly)
    (hfit : ∀ b bytes, o.desk.store.contents.get? b = some bytes → bytes.length < 2 ^ 32)
    (hload : Dump.decode check settings (Dump.encode check o.desk.store) = .ok (d.store, y)) :
    (ofDesk d).Follows a (.reload o.desk.store :: log) where
  content hlive := by
    obtain ⟨made, hrest⟩ := ho.rest
    obtain ⟨contents, hentries, hdecode⟩ := Dump.decode_encode settings check hrest hfit
    obtain ⟨hstore, -⟩ := Prod.mk.inj (Except.ok.inj (hdecode.symm.trans hload))
    have hlive : (d.store.arena.find? a).isSome := hlive
    show d.store.contents.get? a = givenLast a log
    rw [← hstore] at hlive ⊢
    rw [Dump.find?_restored] at hlive
    rw [← h.content hlive]
    show contents.get? a = _
    rw [Contents.get?, hentries]
    rfl
  waits hlive i c x hx := by simp [ofDesk] at hx
  unbegun i hnone := rfl

/-- What is made has no content, and nothing waits for it that did not wait before. -/
theorem of_made (ho : o.Orderly) (he : e.Admissible) (hmade : (o.perform e).1 = .ok (.made a))
    (hclear : o.Clear a) : (o.perform e).2.Follows a [] where
  content hlive := by
    obtain ⟨made, hrest⟩ := ho.rest
    rcases o.store_cases e with ⟨-, hnot, -⟩ | ⟨k, hcomes, hrun⟩
    · exact absurd hmade (hnot a)
    · have hnone := Action.get?_of_made (a := a) (hcomes.admissible ho he) hrest
      rw [hrun] at hnone
      exact hnone hmade
  waits hlive i c x hx hopen := by
    rcases content?_perform ho he hlive hx hopen with ⟨-, hwaits⟩ | ⟨x₀, hx₀, hopen₀, hwaits⟩
    · rw [hwaits, hmade, Deed.stages?_made]
      rfl
    · rw [hwaits, hmade, Deed.stages?_made, hclear i c x₀ hx₀ hopen₀]
      rfl
  unbegun i hnone := rfl

end Follows

/-- From the time that an element is made at `a`, for which nothing waits, its content is the one
that was given last. -/
theorem Leads.follows (h : Leads allowed o₁ log o) (ho : o₁.Orderly)
    (h₁ : ∃ made, Reached allowed made o₁.desk.store) (hfollows : o₁.Follows a [])
    (hnew : ∀ e, .deed e (.ok (.made a)) ∉ log)
    (hfit : ∀ saved, .reload saved ∈ log →
      ∀ b bytes, saved.contents.get? b = some bytes → bytes.length < 2 ^ 32) :
    o.Follows a log := by
  induction h with
  | refl => exact hfollows
  | @deed log o e he hstaged hleads ih =>
    have hbefore := ih (fun e' he' => hnew e' (List.mem_cons_of_mem _ he'))
      fun saved hsaved => hfit saved (List.mem_cons_of_mem _ hsaved)
    refine hbefore.deed (hleads.reached ho h₁).1 he hstaged fun hmade => hnew e ?_
    rw [hmade]
    exact List.mem_cons_self
  | counted m _ ih => exact (ih hnew hfit).counted m
  | @reload log o d settings y check hc hleads hload ih =>
    have hbefore := ih (fun e' he' => hnew e' (List.mem_cons_of_mem _ he'))
      fun saved hsaved => hfit saved (List.mem_cons_of_mem _ hsaved)
    exact hbefore.reload (hleads.reached ho h₁).1 (hfit _ List.mem_cons_self) hload

end Office

/-! ## Contents and searches -/

/-- Only links have contents. A search lists, in ascending order, just the links whose content it
asks for. -/
structure Store.KeepsContents (s : Store) : Prop where
  owner : ∀ a, (s.contents.get? a).isSome → s.arena.isLinkAt a = true
  found : ∀ bytes, (s.contents.find bytes).Pairwise (·.packed < ·.packed) ∧
    ∀ a, a ∈ s.contents.find bytes ↔ s.contentOf a = .ok (some bytes)
  containing : ∀ needle, (s.contents.findContaining needle).Pairwise (·.packed < ·.packed) ∧
    ∀ a, a ∈ s.contents.findContaining needle ↔
      ∃ bytes, s.contentOf a = .ok (some bytes) ∧ needle <:+: bytes

/-- Whatever was reached, its contents are those of its links. -/
theorem Reached.contents_of_links {allowed : Settings → Prop} {made : List Address} {s : Store}
    (h : Reached allowed made s) : s.KeepsContents := by
  have howner := h.atRest.sound.contents
  have hcontent : ∀ {a bytes},
      s.contentOf a = .ok (some bytes) ↔ s.contents.get? a = some bytes := by
    intro a bytes
    rw [Store.contentOf_ok_iff]
    exact ⟨fun hget => hget.2, fun hget => ⟨howner a (Option.isSome_of_eq_some hget), hget⟩⟩
  refine ⟨howner, fun bytes => ?_, fun needle => ?_⟩
  · refine ⟨s.contents.pairwise_find bytes, fun a => ?_⟩
    rw [h.obtained.indexed.mem_find, hcontent]
  · refine ⟨s.contents.pairwise_findContaining needle, fun a => ?_⟩
    simp only [Contents.mem_findContaining, hcontent]

/-- Whoever did what, and whatever was saved and loaded on the way: only links have contents, and a
search finds the links by what they have. When an element is made for which no content waits, then
at any later time, while it is a link, it has the content that was set or committed for it last, and
none if there was none; what was saved and loaded must have been short enough for a dump. -/
theorem Office.Lived.keeps_contents {allowed : Settings → Prop} {o : Office}
    (h : o.Lived allowed) : o.desk.store.KeepsContents ∧
      ∀ (e : Deed) (a : Address) (log : List Occurrence) (o' : Office), e.Admissible →
        (o.perform e).1 = .ok (.made a) → o.Clear a →
        Leads allowed (o.perform e).2 log o' → (∀ e', .deed e' (.ok (.made a)) ∉ log) →
        (∀ saved, .reload saved ∈ log →
          ∀ b bytes, saved.contents.get? b = some bytes → bytes.length < 2 ^ 32) →
        o'.desk.store.arena.isLinkAt a = true →
        o'.desk.store.contentOf a = .ok (givenLast a log) := by
  obtain ⟨ho, made, hreached⟩ := h.reached
  refine ⟨hreached.contents_of_links, ?_⟩
  intro e a log o' he hmade hclear hleads hnew hfit hlink
  have hfollows := hleads.follows (ho.perform he) (reached_perform ho ⟨made, hreached⟩ he)
    (.of_made ho he hmade hclear) hnew hfit
  obtain ⟨el, hel, -⟩ := (Option.any_eq_true _ _).1 hlink
  exact Store.contentOf_ok_iff.2 ⟨hlink, hfollows.content (Option.isSome_of_eq_some hel)⟩

/-- An office with a new store. -/
def newOffice : Office := .ofDesk { store := .ofSettings .small }

theorem lived_newOffice {es : List Deed} (hes : ∀ e ∈ es, e.Admissible)
    (hstaged : ∀ e ∈ es, e.StagedByRecording) : (newOffice.after es).Lived (· = .small) :=
  ⟨.small, {}, newOffice.events es, rfl, .after hes hstaged⟩

/-- A session begins a transaction. -/
def begunNewOffice : Office := newOffice.after [.begin ⟨.lowest⟩]

/-- The empty content is committed for a link. -/
def emptyingDeeds : List Deed := [.draft 0 (.setContent ⟨1, 1⟩ []), .commit 0]

/-- A link that is made has the empty content after that. -/
theorem Office.Lived.keeps_contents_begunNewOffice : begunNewOffice.Lived (· = .small) ∧
    (begunNewOffice.perform (.direct ⟨.lowest⟩ (.addLink .const))).1 = .ok (.made ⟨1, 1⟩) ∧
    ((begunNewOffice.perform (.direct ⟨.lowest⟩ (.addLink .const))).2.after
      emptyingDeeds).desk.store.contentOf ⟨1, 1⟩ = .ok (some []) := by
  have hbegin : ∀ e ∈ [Deed.begin ⟨.lowest⟩], e.Admissible ∧ e.StagedByRecording := by
    simp [Deed.Admissible, Deed.StagedByRecording, Access.inUse_lowest]
  have hdeeds : ∀ e ∈ emptyingDeeds, e.Admissible ∧ e.StagedByRecording := by
    simp [emptyingDeeds, Deed.Admissible, Deed.StagedByRecording, Draft.Call.Admissible]
  have hlived : begunNewOffice.Lived (· = .small) :=
    lived_newOffice (fun e he => (hbegin e he).1) fun e he => (hbegin e he).2
  have hmade : (begunNewOffice.perform (.direct ⟨.lowest⟩ (.addLink .const))).1
      = .ok (.made ⟨1, 1⟩) := by
    decide +kernel
  have hclear : begunNewOffice.Clear ⟨1, 1⟩ := by
    intro i c x hx _
    obtain ⟨rfl, rfl⟩ := Prod.mk.inj (List.mem_singleton.1 (List.mem_of_getElem? hx))
    rfl
  have hleads : Office.Leads (· = .small) _ _
      ((begunNewOffice.perform (.direct ⟨.lowest⟩ (.addLink .const))).2.after emptyingDeeds) :=
    .after (fun e he => (hdeeds e he).1) fun e he => (hdeeds e he).2
  have hevents : (begunNewOffice.perform (.direct ⟨.lowest⟩ (.addLink .const))).2.events
      emptyingDeeds
      = [.deed (.commit 0) (.ok .done), .deed (.draft 0 (.setContent ⟨1, 1⟩ [])) (.ok .done)] :=
    rfl
  rw [hevents] at hleads
  refine ⟨hlived, hmade, ?_⟩
  exact hlived.keeps_contents.2 (.direct ⟨.lowest⟩ (.addLink .const)) ⟨1, 1⟩ _ _
    ⟨Access.inUse_lowest, trivial⟩ hmade hclear hleads (by simp) (by simp) (by decide +kernel)

/-- A content is staged for a link, which is erased then. -/
def emptiedDeeds : List Deed :=
  [.begin ⟨.lowest⟩, .direct ⟨.lowest⟩ (.addLink .const), .draft 0 (.setContent ⟨1, 1⟩ [7]),
    .direct ⟨.lowest⟩ (.erase ⟨1, 1⟩)]

def emptiedOffice : Office := newOffice.after emptiedDeeds

/-- The link that is made next gets the address of the one that was erased. No content is set or
staged for it, and after the commit it has the content that was staged for the other one. -/
theorem commit_fills_new_link : emptiedOffice.Lived (· = .small) ∧
    (emptiedOffice.perform (.direct ⟨.lowest⟩ (.addLink .const))).1 = .ok (.made ⟨1, 1⟩) ∧
    ∃ o, Office.Leads (· = .small)
        (emptiedOffice.perform (.direct ⟨.lowest⟩ (.addLink .const))).2
        [.deed (.commit 0) (.ok .done)] o ∧
      o.desk.store.arena.isLinkAt ⟨1, 1⟩ = true ∧
      givenLast ⟨1, 1⟩ [.deed (.commit 0) (.ok .done)] = none ∧
      o.desk.store.contentOf ⟨1, 1⟩ = .ok (some [7]) := by
  have hadmissible : ∀ e ∈ emptiedDeeds, e.Admissible := by
    simp [emptiedDeeds, Deed.Admissible, Draft.Call.Admissible, Access.inUse_lowest]
  have hstaged : ∀ e ∈ emptiedDeeds, e.StagedByRecording := by
    simp [emptiedDeeds, Deed.StagedByRecording]
  refine ⟨lived_newOffice hadmissible hstaged, by decide +kernel, _,
    .deed (.commit 0) trivial trivial .refl, by decide +kernel, rfl, by decide +kernel⟩

end SemanticNet
