import SemanticNet.Proofs.Calls
import SemanticNet.Proofs.Outcomes

/-!
# A desk that is shared

Several sessions work at one desk. Each may have transactions of its own, and what they do comes in
any order (`Office`, `Deed`). A deed comes to one operation on the store at most, for which its
session has the rights (`Office.store_cases`); and of a draft it changes no more than one call, the
commit or the rollback of that draft does (`Office.draft_cases`). So the store is at rest at all
times, and what is staged is proper (`Office.Orderly`).
-/

namespace SemanticNet

/-- A desk, and the transactions that were begun at it, each with its session. -/
structure Office where
  desk : Desk
  drafts : List (Session × Transaction) := []

/-- What may happen at a desk: a session begins a transaction, makes a call outside of one or in one
of its own, or ends one of its own; or the store is changed by someone else. Transactions are known
by the order in which they were begun. -/
inductive Deed where
  | begin (c : Session)
  | direct (c : Session) (k : Draft.Call)
  | draft (i : Nat) (k : Draft.Call)
  | commit (i : Nat)
  | rollback (i : Nat)
  | act (k : Action)

/-- The levels that a deed is given are in use. -/
def Deed.Admissible : Deed → Prop
  | begin c => c.levels.InUse
  | direct c k => c.levels.InUse ∧ k.Admissible
  | draft _ k => k.Admissible
  | act k => k.Admissible
  | commit _ | rollback _ => True

namespace Office

/-- A desk before any transaction was begun at it. -/
def ofDesk (d : Desk) : Office := { desk := d }

/-- Runs a step of a draft. There is nothing to be done in a transaction that was not begun. -/
def work (o : Office) (i : Nat) (f : Session → Step Work Answer) :
    Except Failure Answer × Office :=
  match o.drafts[i]? with
  | none => (.error (.invalidState .finished), o)
  | some (c, x) =>
    let (r, x, desk) := o.desk.run x (f c)
    (r, { desk, drafts := o.drafts.set i (c, x) })

def perform (o : Office) : Deed → Except Failure Answer × Office
  | .begin c =>
    let (x, desk) := o.desk.begin
    (.ok .done, { desk, drafts := o.drafts ++ [(c, x)] })
  | .direct c k =>
    let (r, desk) := (Desk.onStore (k.direct c)).on o.desk
    (r, { o with desk })
  | .draft i k => o.work i k.run
  | .commit i => o.work i fun _ => (fun _ => .done) <$> Transaction.commit
  | .rollback i => o.work i fun _ =>
    (fun _ => .done) <$> Work.onTransaction Transaction.rollback
  | .act k =>
    let (r, desk) := (Desk.onStore k.run).on o.desk
    (r, { o with desk })

/-- The office after some deeds. -/
def after (o : Office) (es : List Deed) : Office := es.foldl (fun o e => (o.perform e).2) o

/-- The answers to deeds that follow each other. -/
def answers : Office → List Deed → List (Except Failure Answer)
  | _, [] => []
  | o, e :: es => (o.perform e).1 :: (o.perform e).2.answers es

variable {o : Office} {e : Deed} {es : List Deed} {i : Nat} {c : Session} {x x' : Transaction}
  {a : Address} {made : List Address}

theorem after_append {es' : List Deed} : o.after (es ++ es') = (o.after es).after es' :=
  List.foldl_append

/-! ## The store -/

/-- The operation on the store that a deed comes to, with the rights that were found. -/
inductive Comes (o : Office) : Deed → Action → Prop where
  | direct {c : Session} {k : Draft.Call} (h : k.Allowed c o.desk.store) :
      Comes o (.direct c k) (k.action c)
  | draft {i : Nat} {c : Session} {x : Transaction} {k : Draft.Call}
      (hx : o.drafts[i]? = some (c, x)) (h : k.Allowed c o.desk.store) :
      Comes o (.draft i k) (k.action c)
  | commit {i : Nat} {c : Session} {x : Transaction} (hx : o.drafts[i]? = some (c, x)) :
      Comes o (.commit i) (.commit x)
  | act (k : Action) : Comes o (.act k) k

/-- A deed that makes nothing and erases nothing, and leaves the store as it is. -/
def Idle (o : Office) (e : Deed) : Prop :=
  (o.perform e).2.desk.store = o.desk.store ∧ (∀ c, (o.perform e).1 ≠ .ok (.made c)) ∧
    ∀ as, (o.perform e).1 ≠ .ok (.erased as)

theorem work_of_some {f : Session → Step Work Answer} (hx : o.drafts[i]? = some (c, x)) :
    (o.work i f).1 = ((f c).on (x, o.desk.store)).1 ∧
    (o.work i f).2.desk.store = ((f c).on (x, o.desk.store)).2.2 ∧
    (o.work i f).2.drafts
      = o.drafts.set i (c, ((f c).on (x, o.desk.store)).2.1) := by
  rw [work, hx]
  exact ⟨rfl, rfl, rfl⟩

/-- There is nothing to be done in a transaction that was not begun. -/
theorem work_of_none {f : Session → Step Work Answer} (hx : o.drafts[i]? = none) :
    o.work i f = (.error (.invalidState .finished), o) := by
  rw [work, hx]

theorem idle_of_error {f : Failure} (hs : (o.perform e).2.desk.store = o.desk.store)
    (hf : (o.perform e).1 = .error f) : o.Idle e := by
  refine ⟨hs, fun c => ?_, fun as => ?_⟩ <;> simp [hf]

theorem idle_of_done {r : Except Failure Unit} (hs : (o.perform e).2.desk.store = o.desk.store)
    (hr : (o.perform e).1 = r.map fun _ => .done) : o.Idle e := by
  refine ⟨hs, fun c => ?_, fun as => ?_⟩ <;> cases r <;> simp [hr, Except.map]

theorem idle_of_none {f : Session → Step Work Answer} (he : o.perform e = o.work i f)
    (hx : o.drafts[i]? = none) : o.Idle e := by
  have hrefused := he.trans (work_of_none hx)
  exact idle_of_error (congrArg (·.2.desk.store) hrefused) (congrArg Prod.fst hrefused)

/-- A call on a draft is refused, or it is staged, or it comes to one operation. -/
theorem store_cases_draft (k : Draft.Call) (hx : o.drafts[i]? = some (c, x)) :
    o.Idle (.draft i k) ∨ ∃ l, o.Comes (.draft i k) l ∧
      l.run.on o.desk.store
        = ((o.perform (.draft i k)).1, (o.perform (.draft i k)).2.desk.store) := by
  obtain ⟨hanswer, hstore, -⟩ := work_of_some (f := k.run) hx
  have houtcome := Draft.Call.outcome c k (x, o.desk.store)
  generalize (k.run c).on (x, o.desk.store) = result at hanswer hstore houtcome
  have hsame : (o.perform (.draft i k)).1 = result.1 ∧
      (o.perform (.draft i k)).2.desk.store = result.2.2 := ⟨hanswer, hstore⟩
  cases houtcome with
  | refused f => exact .inl (idle_of_error hstore hanswer)
  | failed h hrun | made h _ hrun | erased h _ hrun =>
    refine .inr ⟨k.action c, .draft hx h, ?_⟩
    rw [hsame.1, hsame.2]
    exact hrun
  | narrowed _ _ | levels _ _ | content _ _ =>
    exact .inl (idle_of_done (r := .ok ()) hstore hanswer)

/-- A commit of a draft is the operation that applies what the draft has staged. -/
theorem run_commit (hx : o.drafts[i]? = some (c, x)) :
    (Action.commit x).run.on o.desk.store
      = ((o.perform (.commit i)).1, (o.perform (.commit i)).2.desk.store) := by
  obtain ⟨hanswer, hstore, -⟩ :=
    work_of_some (f := fun _ => (fun _ => .done) <$> Transaction.commit) hx
  show _ = ((o.work i _).1, (o.work i _).2.desk.store)
  rw [hanswer, hstore, Action.run, Step.on_map, Step.on_map]
  rfl

/-- A deed leaves the store as it is, or comes to one operation. -/
theorem store_cases (o : Office) (e : Deed) : o.Idle e ∨ ∃ k, o.Comes e k ∧
    k.run.on o.desk.store = ((o.perform e).1, (o.perform e).2.desk.store) := by
  cases e with
  | begin c => exact .inl (idle_of_done (r := .ok ()) rfl rfl)
  | direct c k =>
    rcases Draft.Call.direct_cases c k o.desk.store with ⟨f, hrefused⟩ | ⟨hallowed, hrun⟩
    · exact .inl (idle_of_error (congrArg Prod.snd hrefused) (congrArg Prod.fst hrefused))
    · exact .inr ⟨k.action c, .direct hallowed, hrun.symm⟩
  | draft i k =>
    cases hx : o.drafts[i]? with
    | none => exact .inl (idle_of_none rfl hx)
    | some p => exact store_cases_draft k hx
  | commit i =>
    cases hx : o.drafts[i]? with
    | none =>
      exact .inl (idle_of_none (f := fun _ => (fun _ => .done) <$> Transaction.commit) rfl hx)
    | some p =>
      exact .inr ⟨.commit p.2, .commit hx, run_commit hx⟩
  | rollback i =>
    cases hx : o.drafts[i]? with
    | none =>
      exact .inl (idle_of_none (f := fun _ =>
        (fun _ => .done) <$> Work.onTransaction Transaction.rollback) rfl hx)
    | some p =>
      obtain ⟨c, x⟩ := p
      obtain ⟨hanswer, hstore, -⟩ := work_of_some (f := fun _ =>
        (fun _ => .done) <$> Work.onTransaction Transaction.rollback) hx
      rw [Step.on_map] at hanswer hstore
      exact .inl (idle_of_done hstore hanswer)
  | act k => exact .inr ⟨k, .act k, rfl⟩

/-! ## The drafts -/

/-- What becomes of a draft when a step of it is taken. -/
inductive Moves (o : Office) (i : Nat) (c : Session) (x : Transaction) :
    Deed → Transaction → Prop where
  | stays (e : Deed) : Moves o i c x e x
  | called (k : Draft.Call) :
      Moves o i c x (.draft i k) ((k.run c).on (x, o.desk.store)).2.1
  | committed : Moves o i c x (.commit i) (Transaction.commit.on (x, o.desk.store)).2.1
  | rolledBack : Moves o i c x (.rollback i) (Transaction.rollback.on x).2

/-- What was staged is kept, or the draft is finished, or there was a call on it. -/
theorem Moves.cases {x' : Transaction} (h : o.Moves i c x e x') :
    (x'.staged = x.staged ∧ x'.isOpen = x.isOpen) ∨ (x'.staged = {} ∧ x'.isOpen = false) ∨
      ∃ k, e = .draft i k ∧ x' = ((k.run c).on (x, o.desk.store)).2.1 := by
  cases h with
  | stays e => exact .inl ⟨rfl, rfl⟩
  | called k => exact .inr (.inr ⟨k, rfl, rfl⟩)
  | committed =>
    rcases x.commit_turns o.desk.store with ⟨-, hsame⟩ | ⟨hopen, hsame | hsame⟩
    · exact .inl ⟨by rw [hsame], by rw [hsame]⟩
    · exact .inr (.inl ⟨by rw [hsame], by rw [hsame]; rfl⟩)
    · exact .inl ⟨by rw [hsame], by rw [hsame, hopen]; rfl⟩
  | rolledBack =>
    rcases x.rollback_turns with ⟨-, hsame⟩ | ⟨-, hsame⟩
    · exact .inl ⟨by rw [hsame], by rw [hsame]⟩
    · exact .inr (.inl ⟨by rw [hsame], by rw [hsame]; rfl⟩)

theorem work_of_ne {j : Nat} {f : Session → Step Work Answer} (hij : i ≠ j) :
    (o.work i f).2.drafts[j]? = o.drafts[j]? := by
  rw [work]
  cases hx : o.drafts[i]? with
  | none => rfl
  | some p => exact List.getElem?_set_ne hij

theorem getElem?_work {f : Session → Step Work Answer} (hx : o.drafts[i]? = some (c, x)) :
    (o.work i f).2.drafts[i]? = some (c, ((f c).on (x, o.desk.store)).2.1) := by
  obtain ⟨hlt, -⟩ := List.getElem?_eq_some_iff.1 hx
  rw [(work_of_some hx).2.2, List.getElem?_set_self hlt]

/-- Of a draft no deed changes more than a step of it does. -/
theorem draft_cases (hx : o.drafts[i]? = some (c, x)) :
    ∃ x', (o.perform e).2.drafts[i]? = some (c, x') ∧ o.Moves i c x e x' := by
  cases e with
  | begin c' =>
    obtain ⟨hlt, -⟩ := List.getElem?_eq_some_iff.1 hx
    exact ⟨x, (List.getElem?_append_left hlt).trans hx, .stays _⟩
  | direct c' k => exact ⟨x, hx, .stays _⟩
  | draft j k =>
    by_cases hji : j = i
    · subst hji
      exact ⟨_, getElem?_work hx, .called k⟩
    · exact ⟨x, (work_of_ne hji).trans hx, .stays _⟩
  | commit j =>
    by_cases hji : j = i
    · subst hji
      have hmap : ∀ w : Work, ((fun _ : Unit => Answer.done) <$> Transaction.commit).on w
          = ((Transaction.commit.on w).1.map fun _ => .done, (Transaction.commit.on w).2) :=
        fun w => Step.on_map _ _ w
      refine ⟨_, getElem?_work hx, ?_⟩
      rw [hmap]
      exact .committed
    · exact ⟨x, (work_of_ne hji).trans hx, .stays _⟩
  | rollback j =>
    by_cases hji : j = i
    · subst hji
      refine ⟨_, getElem?_work hx, ?_⟩
      rw [Step.on_map, Work.on_onTransaction]
      exact .rolledBack
    · exact ⟨x, (work_of_ne hji).trans hx, .stays _⟩
  | act k => exact ⟨x, hx, .stays _⟩

theorem getElem?_work_of_none {f : Session → Step Work Answer} {j : Nat}
    (hnew : o.drafts[i]? = none) : (o.work j f).2.drafts[i]? = none := by
  by_cases hji : j = i
  · subst hji
    rw [work, hnew]
    exact hnew
  · exact (work_of_ne hji).trans hnew

/-- A draft that was not there before was begun just now. -/
theorem begun_of_new (hx : (o.perform e).2.drafts[i]? = some (c, x))
    (hnew : o.drafts[i]? = none) : e = .begin c ∧ x = o.desk.begin.1 := by
  cases e with
  | begin c' =>
    have hx : (o.drafts ++ [(c', o.desk.begin.1)])[i]? = some (c, x) := hx
    rw [List.getElem?_append_right (List.getElem?_eq_none_iff.1 hnew)] at hx
    have hsame := List.mem_singleton.1 (List.mem_of_getElem? hx)
    cases hsame
    exact ⟨rfl, rfl⟩
  | direct c' k => cases hnew.symm.trans hx
  | draft j k => cases (getElem?_work_of_none hnew).symm.trans hx
  | commit j => cases (getElem?_work_of_none hnew).symm.trans hx
  | rollback j => cases (getElem?_work_of_none hnew).symm.trans hx
  | act k => cases hnew.symm.trans hx

/-! ## What holds at all times -/

/-- The store is at rest, the levels of the sessions are in use, and what their drafts have staged
is proper. -/
structure Orderly (o : Office) : Prop where
  rest : ∃ made, o.desk.store.AtRest made
  drafts : ∀ (i : Nat) (c : Session) (x : Transaction), o.drafts[i]? = some (c, x) →
    c.levels.InUse ∧ x.staged.Proper

theorem Comes.admissible {k : Action} (h : o.Comes e k) (ho : o.Orderly) (he : e.Admissible) :
    k.Admissible := by
  cases h with
  | direct _ => exact Draft.Call.admissible_action he.1 he.2
  | draft hx _ => exact Draft.Call.admissible_action (ho.drafts _ _ _ hx).1 he
  | commit hx => exact (ho.drafts _ _ _ hx).2.staging_inUse
  | act k => exact he

theorem Moves.proper {x' : Transaction} (h : o.Moves i c x e x') (hx : x.staged.Proper)
    (he : e.Admissible) : x'.staged.Proper := by
  rcases h.cases with ⟨hsame, -⟩ | ⟨hnothing, -⟩ | ⟨k, rfl, rfl⟩
  · rwa [hsame]
  · rw [hnothing]
    exact .nothing
  · exact (Draft.Call.outcome c k (x, o.desk.store)).proper hx he

theorem Orderly.perform (h : o.Orderly) (he : e.Admissible) : (o.perform e).2.Orderly where
  rest := by
    obtain ⟨made, hrest⟩ := h.rest
    rcases o.store_cases e with ⟨hsame, -, -⟩ | ⟨k, hcomes, hrun⟩
    · rw [hsame]
      exact ⟨made, hrest⟩
    · have hrest' := k.atRest_run (hcomes.admissible h he) hrest
      rw [hrun] at hrest'
      exact ⟨_, hrest'⟩
  drafts := by
    intro i c x' hx'
    cases hx : o.drafts[i]? with
    | none =>
      obtain ⟨rfl, rfl⟩ := begun_of_new hx' hx
      exact ⟨he, .nothing⟩
    | some p =>
      obtain ⟨c', x⟩ := p
      obtain ⟨x'', hx'', hmoves⟩ := draft_cases (e := e) hx
      cases hx'.symm.trans hx''
      obtain ⟨hlevels, hproper⟩ := h.drafts i _ x hx
      exact ⟨hlevels, hmoves.proper hproper he⟩

theorem Orderly.after (h : o.Orderly) (hes : ∀ e ∈ es, e.Admissible) : (o.after es).Orderly := by
  induction es generalizing o with
  | nil => exact h
  | cons e es ih =>
    exact ih (h.perform (hes e List.mem_cons_self)) fun e' he' =>
      hes e' (List.mem_cons_of_mem e he')

theorem orderly_ofDesk {allowed : Settings → Prop} {d : Desk}
    (h : Reached allowed made d.store) : (ofDesk d).Orderly where
  rest := ⟨made, h.atRest⟩
  drafts i c x hx := by simp [ofDesk] at hx

end Office

end SemanticNet
