import SemanticNet.Draft
import SemanticNet.Proofs.Revising

/-!
# Drafts and direct runs

The calls on one transaction as data (`Draft.Call`), and what they come to when nothing else changes
the store. The calls that succeed, made at once on the store in the same order, give the same
answers; what the draft shows is at each point what they leave (`Draft.Foretells`), and the commit
succeeds and leaves it too. One invariant carries this: the direct run holds the store of the
transaction with everything staged applied to it (`Draft.Tracks`).
-/

namespace SemanticNet

/-! ## Parts of steps -/

theorem Transaction.on_record {α : Type} {x : Transaction} {f : Staging → α × Staging}
    (hopen : x.isOpen = true) : (Transaction.record f).on x
      = (.ok (f x.staged).1, { x with phase := .active, staged := (f x.staged).2 }) := by
  rw [Transaction.record, Step.on_bind, Step.on_ask, ensureOpen_ok hopen]
  rfl

/-- What a session may write is live. -/
theorem Session.exists_of_requireWrite {c : Session} {s : Store} {a : Address} {u : Unit}
    (h : c.requireWrite s a = .ok u) : ∃ e, s.arena.find? a = some e := by
  obtain ⟨access, haccess, -⟩ := bind_eq_ok_iff.1 h
  obtain ⟨e, he, -⟩ := Store.accessOf_ok_iff.1 haccess
  exact ⟨e, he⟩

namespace Staging

variable {b : Staging} {a c : Address} {as : List Address}

/-- Drops what is staged for each of `as`. -/
def removeAll (b : Staging) (as : List Address) : Staging :=
  as.foldl (fun b a => (b.recordRemoved a).2) b

theorem Recorded.removeAll (h : b.Recorded) (as : List Address) : (b.removeAll as).Recorded := by
  induction as generalizing b with
  | nil => exact h
  | cons a as ih => exact ih (h.removed a)

theorem revision?_removeAll :
    (b.removeAll as).revision? c = if c ∈ as then none else b.revision? c := by
  induction as generalizing b with
  | nil => simp [removeAll]
  | cons a as ih =>
    show ((b.recordRemoved a).2.removeAll as).revision? c = _
    rw [ih, revision?_recordRemoved]
    by_cases ha : c = a <;> simp [ha]

theorem content?_removeAll :
    (b.removeAll as).content? c = if c ∈ as then none else b.content? c := by
  induction as generalizing b with
  | nil => simp [removeAll]
  | cons a as ih =>
    show ((b.recordRemoved a).2.removeAll as).content? c = _
    rw [ih, content?_recordRemoved]
    by_cases ha : c = a <;> simp [ha]

theorem revisionOf_recordRevision {r : Revision} :
    (b.recordRevision a r).revisionOf c = if c = a then r else b.revisionOf c := by
  rw [revisionOf, revision?_recordRevision, revisionOf]
  split <;> rfl

theorem revisionOf_eq_some {r : Revision} (h : b.revision? a = some r) : b.revisionOf a = r := by
  rw [revisionOf, h, Option.getD_some]

theorem revisionOf_eq_none (h : b.revision? a = none) : b.revisionOf a = {} := by
  rw [revisionOf, h, Option.getD_none]

end Staging

/-! ## Calls as data -/

namespace Draft

/-- A call on a transaction. -/
inductive Call where
  | addNode (type : ElementType)
  | addLink (type : ElementType)
  | connect (type : ElementType) (source target : Address)
  | erase (a : Address)
  | narrow (a : Address) (type : ElementType)
  | setAccess (a : Address) (access : Access)
  | setContent (a : Address) (bytes : Bytes)

namespace Call

def run (c : Session) : Call → Step Work Answer
  | addNode type => .made <$> Draft.addNode c type
  | addLink type => .made <$> Draft.addLink c type
  | connect type source target => .made <$> Draft.connect c type source target
  | erase a => .erased <$> Draft.erase c a
  | narrow a type => (fun _ => .done) <$> Draft.narrow c a type
  | setAccess a access => (fun _ => .done) <$> Draft.setAccess c a access
  | setContent a bytes => (fun _ => .done) <$> Draft.setContent c a bytes

/-- The operation that does the same at once, without asking for rights. -/
def action (c : Session) : Call → Action
  | addNode type => .addNode type c.levels
  | addLink type => .addLink type c.levels
  | connect type source target => .connect type source target c.levels
  | erase a => .erase a
  | narrow a type => .narrow a type
  | setAccess a access => .setAccess a access
  | setContent a bytes => .setContent a bytes

/-- The levels that a call is given are in use. -/
def Admissible : Call → Prop
  | setAccess _ access => access.InUse
  | _ => True

/-- The operations whose calls succeed, with the answers, and what all calls leave. -/
def runAll (c : Session) : List Call → Work → List (Action × Answer) × Work
  | [], w => ([], w)
  | k :: ks, w =>
    let (r, w) := (k.run c).on w
    let (done, w) := runAll c ks w
    match r with
    | .ok y => ((k.action c, y) :: done, w)
    | .error _ => (done, w)

end Call

/-! ## What is staged against what is done -/

variable {c : Session} {w : Work} {s s' : Store} {t : Store} {a b : Address} {e : Element}
  {made : List Address}

/-- The direct run has reached `s`, which is the store of the open transaction with everything
staged applied to it. Staged types come of narrowing the stored ones, and staged contents are for
live links. -/
structure Tracks (made : List Address) (w : Work) (s : Store) : Prop where
  isOpen : w.1.isOpen = true
  recorded : w.1.staged.Recorded
  stored : w.2.AtRest made
  direct : s.AtRest made
  revised : Arena.Revised w.1.staged.revisionOf w.2.arena s.arena
  settled : ∀ a r, w.1.staged.revision? a = some r →
    ∃ e, w.2.arena.find? a = some e ∧ e.NarrowsAs r
  links : ∀ a, (w.1.staged.content? a).isSome → w.2.arena.isLinkAt a = true
  contents : ∀ a, s.contents.get? a = (w.1.staged.content? a).or (w.2.contents.get? a)

namespace Tracks

theorem awaited (h : Tracks made w s) : w.2.arena.Awaited w.1.staged.revisionOf := by
  intro a ha
  refine Staging.revisionOf_eq_none ?_
  cases hr : w.1.staged.revision? a with
  | none => rfl
  | some r =>
    obtain ⟨e, he, -⟩ := h.settled a r hr
    rw [ha] at he
    cases he

theorem narrowsAs (h : Tracks made w s) (he : w.2.arena.find? a = some e) :
    e.NarrowsAs (w.1.staged.revisionOf a) := by
  cases hr : w.1.staged.revision? a with
  | none =>
    rw [Staging.revisionOf_eq_none hr]
    exact Element.narrowsAs_nothing
  | some r =>
    obtain ⟨e', he', hnarrows⟩ := h.settled a r hr
    rw [he] at he'
    cases he'
    rw [Staging.revisionOf_eq_some hr]
    exact hnarrows

theorem find? (h : Tracks made w s) (he : w.2.arena.find? a = some e) :
    s.arena.find? a = some (e.revised (w.1.staged.revisionOf a)) := by
  rw [h.revised.find?, he, Option.map_some]

theorem isLinkAt (h : Tracks made w s) : s.arena.isLinkAt a = w.2.arena.isLinkAt a := by
  rw [Arena.isLinkAt, h.revised.find?, Option.any_map, Arena.isLinkAt]
  exact congrArg (Option.any · _) (funext fun e => Store.isLink_revised)

end Tracks

/-! ## What a draft shows -/

/-- The draft shows the types, the levels and the contents that `s` has, and its commit succeeds and
leaves the elements of `s`, slot by slot, with the contents and the census of `s`. -/
structure Foretells (c : Session) (w : Work) (s : Store) : Prop where
  type : ∀ a type, typeOf c w a = .ok type → s.typeOf a = .ok type
  access : ∀ a access, accessOf c w a = .ok access → s.accessOf a = .ok access
  content : ∀ a content, contentOf c w a = .ok content → s.contentOf a = .ok content
  commit : ∃ s', Transaction.commit.on w
      = (.ok (), { w.1 with phase := .committed, staged := {} }, s') ∧
    s'.arena = s.arena ∧ s'.contents.entries = s.contents.entries ∧ s'.census = s.census

namespace Tracks

theorem accepts (h : Tracks made w s) : w.2.Accepts w.1.staged where
  revisions a r hmem := by
    have hlookup := (Assoc.mem_iff_lookup h.recorded.distinct.revisions).1 hmem
    obtain ⟨e, he, hnarrows⟩ := h.settled a r hlookup
    exact ⟨e, he, fun m hm => Option.isSome_of_eq_some (hnarrows m hm)⟩
  contents a bytes hmem := by
    have hlookup := (Assoc.mem_iff_lookup h.recorded.distinct.contents).1 hmem
    exact h.links a (Option.isSome_of_eq_some hlookup)

/-- Revised elements are counted as they were. -/
theorem census_eq (h : Tracks made w s) : w.2.census = s.census := by
  have hkind : ∀ a, w.2.arena.kind? a = s.arena.kind? a := fun a =>
    ((Arena.aligned_revised _).map_find? h.revised fun _ _ => Element.sort_of_outline).symm
  rw [h.stored.sound.census, h.direct.sound.census]
  exact Census.tally_perm
    ((h.direct.sound.tidy.addressable.kinds_perm h.stored.sound.tidy.addressable hkind).map
      Prod.snd)

theorem commit (h : Tracks made w s) : ∃ s', Transaction.commit.on w
      = (.ok (), { w.1 with phase := .committed, staged := {} }, s') ∧
    s'.arena = s.arena ∧ s'.contents.entries = s.contents.entries ∧ s'.census = s.census := by
  have hd := h.recorded.distinct
  rcases Transaction.commit_cases h.isOpen h.stored.sound.tidy hd with ⟨-, hrun⟩ | ⟨hnot, -⟩
  · refine ⟨w.2.committed w.1.staged, hrun, h.revised.eq.symm, ?_, h.census_eq⟩
    refine Std.ExtTreeMap.ext_getElem? fun a => ?_
    exact (Store.get?_committed hd).trans (h.contents a).symm
  · exact absurd h.accepts hnot

theorem foretells (h : Tracks made w s) : Foretells c w s where
  type a type hshown := by
    obtain ⟨stored, hstored, hout⟩ := bind_eq_ok_iff.1 hshown
    obtain ⟨-, -, hstored⟩ := bind_eq_ok_iff.1 hstored
    obtain ⟨e, he, rfl⟩ := Store.typeOf_ok_iff.1 hstored
    refine Store.typeOf_ok_iff.2 ⟨_, h.find? he, ?_⟩
    rw [(h.narrowsAs he).type_revised]
    exact Except.ok.inj hout
  access a access hshown := by
    obtain ⟨stored, hstored, hout⟩ := bind_eq_ok_iff.1 hshown
    obtain ⟨-, -, hstored⟩ := bind_eq_ok_iff.1 hstored
    obtain ⟨e, he, rfl⟩ := Store.accessOf_ok_iff.1 hstored
    exact Store.accessOf_ok_iff.2 ⟨_, h.find? he, Except.ok.inj hout⟩
  content a content hshown := by
    obtain ⟨stored, hstored, hout⟩ := bind_eq_ok_iff.1 hshown
    obtain ⟨-, -, hstored⟩ := bind_eq_ok_iff.1 hstored
    obtain ⟨hlink, rfl⟩ := Store.contentOf_ok_iff.1 hstored
    refine Store.contentOf_ok_iff.2 ⟨h.isLinkAt.trans hlink, ?_⟩
    rw [h.contents]
    exact Except.ok.inj hout
  commit := h.commit

end Tracks

/-! ## What happens at once -/

/-- While the transaction is open, an element that is made is recorded. -/
theorem on_creating {x : Step Store Address} (hopen : w.1.isOpen = true) :
    (creating x).on w = match x.on w.2 with
      | (.ok a, t) =>
        (.ok a, ({ w.1 with phase := .active, staged := (w.1.staged.recordCreated a).2 }, t))
      | (.error f, t) => (.error f, (w.1, t)) := by
  simp only [creating, Step.on_bind, Work.on_onTransaction, Work.on_onStore, Step.on_ask,
    Transaction.ensureOpen_ok hopen]
  rcases x.on w.2 with ⟨f | a, t⟩
  · rfl
  · simp only [Transaction.on_record hopen, Step.on_pure]

/-- While the transaction is open, nothing stays staged for what is erased. -/
theorem on_erase (hopen : w.1.isOpen = true) :
    (Draft.erase c a).on w = match (c.erase a).on w.2 with
      | (.ok order, t) =>
        (.ok order, ({ w.1 with phase := .active, staged := w.1.staged.removeAll order }, t))
      | (.error f, t) => (.error f, (w.1, t)) := by
  simp only [Draft.erase, Step.on_bind, Work.on_onTransaction, Work.on_onStore, Step.on_ask,
    Transaction.ensureOpen_ok hopen]
  rcases (c.erase a).on w.2 with ⟨f | order, t⟩
  · rfl
  · simp only [Transaction.stage, Transaction.on_record hopen, Step.on_pure]
    rfl

/-- The step `x` of a transaction is refused, and the direct run stays as far as it was; or `y`
gives the same answer at once, and the direct run goes on from what `y` leaves. -/
def Mirrors (made : List Address) (w : Work) (s : Store) (x : Step Work Answer)
    (y : Step Store Answer) : Prop :=
  (∃ f w', x.on w = (.error f, w') ∧ Tracks made w' s) ∨
    ∃ r w' s', x.on w = (.ok r, w') ∧ y.on s = (.ok r, s') ∧ Tracks (madeBy (.ok r) ++ made) w' s'

namespace Tracks

/-- Elements that are there all along answer for the staged changes. -/
theorem kept (h : Tracks made w s) {x : Transaction}
    (hrevision : ∀ a r, x.staged.revision? a = some r →
      w.1.staged.revision? a = some r ∧ t.arena.bare? a = w.2.arena.bare? a)
    (hcontent : ∀ a, (x.staged.content? a).isSome →
      (w.1.staged.content? a).isSome ∧ t.arena.bare? a = w.2.arena.bare? a) :
    (∀ a r, x.staged.revision? a = some r → ∃ e, t.arena.find? a = some e ∧ e.NarrowsAs r) ∧
      ∀ a, (x.staged.content? a).isSome → t.arena.isLinkAt a = true := by
  constructor
  · intro a r hr
    obtain ⟨hr, hbare⟩ := hrevision a r hr
    obtain ⟨e, he, hnarrows⟩ := h.settled a r hr
    obtain ⟨e', he', hsame⟩ := Arena.find?_of_bare hbare.symm he
    have htype : e.type = e'.type := congrArg (·.type) hsame
    refine ⟨e', he', ?_⟩
    intro m hm
    rw [← htype]
    exact hnarrows m hm
  · intro a ha
    obtain ⟨ha, hbare⟩ := hcontent a ha
    rw [Arena.isLinkAt_of_bare hbare]
    exact h.links a ha

theorem agrees (h : Tracks made w s) (ha : w.2.Agrees t) : Tracks made (w.1, t) s := by
  have hbare : ∀ a, t.arena.bare? a = w.2.arena.bare? a := fun a => by rw [ha.arena]
  obtain ⟨hsettled, hlinks⟩ := h.kept (x := w.1) (fun a r hr => ⟨hr, hbare a⟩)
    fun a hc => ⟨hc, hbare a⟩
  refine ⟨h.isOpen, h.recorded, h.stored.agrees ha, h.direct, ?_, hsettled, hlinks, fun a => ?_⟩
  · rw [show ((w.1, t) : Work).2.arena = w.2.arena from ha.arena]
    exact h.revised
  · rw [show ((w.1, t) : Work).2.contents = w.2.contents from ha.contents]
    exact h.contents a

/-- A new element stands at the same address in both stores, and nothing waits for it. -/
theorem created {e' : Element} (h : Tracks made w s) (hc : w.2.Created t a e)
    (hc' : s.Created s' a e') (hrevised : Arena.Revised w.1.staged.revisionOf t.arena s'.arena) :
    Tracks (a :: made)
      ({ w.1 with phase := .active, staged := (w.1.staged.recordCreated a).2 }, t) s' := by
  have hbare : ∀ {b}, (w.2.arena.find? b).isSome → t.arena.bare? b = w.2.arena.bare? b := by
    intro b hb
    have hba : b ≠ a := by
      rintro rfl
      simp [hc.grown.fresh] at hb
    rw [hc.grown.bare, if_neg hba]
  obtain ⟨hsettled, hlinks⟩ := h.kept (t := t)
    (x := { w.1 with phase := .active, staged := (w.1.staged.recordCreated a).2 })
    (fun b r hr => by
      obtain ⟨e, he, -⟩ := h.settled b r hr
      exact ⟨hr, hbare (Option.isSome_of_eq_some he)⟩)
    fun b hb => by
      obtain ⟨e, he, -⟩ := (Option.any_eq_true _ _).1 (h.links b hb)
      exact ⟨hb, hbare (Option.isSome_of_eq_some he)⟩
  refine ⟨rfl, h.recorded.created a, h.stored.created hc, h.direct.created hc', hrevised, hsettled,
    hlinks, fun b => ?_⟩
  rw [hc'.contents, h.contents]
  exact congrArg (fun c : Contents byteHash => (w.1.staged.content? b).or (c.get? b))
    hc.contents.symm

/-- A creation that the session is allowed is the creation at once. -/
theorem mirrors_creating {x y : Step Store Address} (h : Tracks made w s)
    (hxy : x.on w.2 = y.on w.2 ∨ ∃ f, x.on w.2 = (.error f, w.2)) (hy : Store.Creates y w.2)
    (hy' : Store.Creates y s)
    (hrespects : Step.Respects (Arena.Lockstep.OfStores fun t t' =>
      Arena.Revised w.1.staged.revisionOf t t' ∧ t.Awaited w.1.staged.revisionOf) y) :
    Mirrors made w s (.made <$> creating x) (.made <$> y) := by
  rw [Mirrors, Step.on_map, Step.on_map, on_creating h.isOpen]
  rcases hxy with hxy | ⟨f, hxy⟩
  · rw [hxy]
    rcases hy with ⟨a, e, t, hty, hc⟩ | ⟨f, t, hty, ha⟩
    · have hlock := hrespects w.2 s ⟨h.revised, h.awaited⟩
      rw [hty] at hlock ⊢
      rcases hy' with ⟨a', e', s', hsy, hc'⟩ | ⟨f', s', hsy, -⟩
      · rw [hsy] at hlock ⊢
        obtain ⟨hsame, hrevised, -⟩ := hlock
        obtain rfl := Except.ok.inj hsame
        exact .inr ⟨.made a', _, s', rfl, rfl, h.created hc hc' hrevised⟩
      · rw [hsy] at hlock
        exact absurd hlock.1 (by simp)
    · rw [hty]
      exact .inl ⟨f, _, rfl, h.agrees ha⟩
  · rw [hxy]
    exact .inl ⟨f, _, rfl, h⟩

theorem mirrors_addNode (h : Tracks made w s) (hc : c.levels.InUse) (type : ElementType) :
    Mirrors made w s ((Call.addNode type).run c) ((Call.addNode type).action c).run :=
  h.mirrors_creating (.inl rfl) (h.stored.sound.creates_addNode type hc)
    (h.direct.sound.creates_addNode type hc)
    (Arena.Aligned.addNode (fun e _ => Arena.respects_allocate e) type c.levels)

theorem mirrors_addLink (h : Tracks made w s) (hc : c.levels.InUse) (type : ElementType) :
    Mirrors made w s ((Call.addLink type).run c) ((Call.addLink type).action c).run :=
  h.mirrors_creating (.inl rfl) (h.stored.sound.creates_addLink type hc)
    (h.direct.sound.creates_addLink type hc)
    (Arena.Aligned.addLink (fun e _ => Arena.respects_allocate e) type c.levels)

theorem mirrors_connect (h : Tracks made w s) (hc : c.levels.InUse) (type : ElementType)
    (source target : Address) :
    Mirrors made w s ((Call.connect type source target).run c)
      ((Call.connect type source target).action c).run := by
  refine h.mirrors_creating ?_ (h.stored.sound.creates_connect type source target hc)
    (h.direct.sound.creates_connect type source target hc)
    ((Arena.aligned_awaited _).connect (fun e _ => Arena.respects_allocate e) type source target
      c.levels)
  rw [Session.connect]
  split
  · exact .inr ⟨.invalidParams .emptyEndpoint, rfl⟩
  · rcases Step.ask_bind_cases (c.requireWrite · source)
      (fun _ => do
        Step.ask (c.requireWrite · target)
        Store.connect type source target c.levels) w.2 with ⟨-, -, hrun⟩ | hrefused
    · rw [hrun]
      rcases Step.ask_bind_cases (c.requireWrite · target)
        (fun _ => Store.connect type source target c.levels) w.2 with ⟨-, -, hrun⟩ | hrefused
      · exact .inl hrun
      · exact .inr hrefused
    · exact .inr hrefused

/-- What is erased goes from both stores, and nothing waits for it any more. -/
theorem erased {order : List Address} (h : Tracks made w s) (ht : t.AtRest made)
    (hless : w.2.Less t order) (hs' : s'.AtRest made) (hless' : s.Less s' order)
    (hrevised : Arena.Revised w.1.staged.revisionOf t.arena s'.arena) :
    Tracks made ({ w.1 with phase := .active, staged := w.1.staged.removeAll order }, t) s' := by
  have hbare : ∀ {b}, b ∉ order → t.arena.bare? b = w.2.arena.bare? b := fun hb => by
    rw [hless.arena.bare, if_neg hb]
  have hrevision : ∀ {b r}, (w.1.staged.removeAll order).revision? b = some r →
      b ∉ order ∧ w.1.staged.revision? b = some r := fun hr => by
    rw [Staging.revision?_removeAll] at hr
    split at hr
    · cases hr
    next hb => exact ⟨hb, hr⟩
  have hcontent : ∀ {b}, ((w.1.staged.removeAll order).content? b).isSome →
      b ∉ order ∧ (w.1.staged.content? b).isSome := fun hb => by
    rw [Staging.content?_removeAll] at hb
    split at hb
    · cases hb
    next hn => exact ⟨hn, hb⟩
  obtain ⟨hsettled, hlinks⟩ := h.kept (t := t)
    (x := { w.1 with phase := .active, staged := w.1.staged.removeAll order })
    (fun b r hr => ⟨(hrevision hr).2, hbare (hrevision hr).1⟩)
    fun b hb => ⟨(hcontent hb).2, hbare (hcontent hb).1⟩
  refine ⟨rfl, h.recorded.removeAll order, ht, hs', hrevised.congr fun b e he => ?_, hsettled,
    hlinks, fun b => ?_⟩
  · have hb := (hless.arena.isSome_find?.1 (Option.isSome_of_eq_some he)).1
    rw [Staging.revisionOf, Staging.revision?_removeAll, if_neg hb, Staging.revisionOf]
  · dsimp only
    rw [hless'.contents, hless.contents, h.contents, Staging.content?_removeAll]
    split <;> rfl

theorem mirrors_erase (h : Tracks made w s) (a : Address) :
    Mirrors made w s ((Call.erase a).run c) ((Call.erase a).action c).run := by
  rw [Mirrors, Call.run, Call.action, Action.run, Step.on_map, Step.on_map, on_erase h.isOpen,
    Session.erase]
  rcases Step.ask_bind_cases (c.requireWrite · a) (fun _ => Store.erase a) w.2 with
    ⟨u, hu, hallowed⟩ | ⟨f, hrefused⟩
  · obtain ⟨e, he⟩ := Session.exists_of_requireWrite hu
    have hlive' := Option.isSome_of_eq_some (h.find? he)
    obtain ⟨order, t, hrunt, ht, hless, -⟩ := h.stored.erase (Option.isSome_of_eq_some he)
    obtain ⟨order', s', hruns, hs', hless', -⟩ := h.direct.erase hlive'
    -- both cascades meet the same rings, so they come in the same order
    obtain ⟨hsame, hrevised⟩ := (Arena.aligned_revised w.1.staged.revisionOf).erase
      Arena.respects_free a w.2 s h.revised
    rw [hrunt, hruns] at hsame hrevised
    obtain rfl := Except.ok.inj hsame
    rw [hallowed, hrunt, hruns]
    exact .inr ⟨.erased order', _, s', rfl, rfl, h.erased ht hless hs' hless' hrevised⟩
  · rw [hrefused]
    exact .inl ⟨f, _, rfl, h⟩

/-! ## What waits for the commit -/

/-- A revision that is staged does to the element what `f` does to it at once. -/
theorem revise {r : Revision} {f : Element → Element} (h : Tracks made w s)
    (he : w.2.arena.find? a = some e) (hr : e.NarrowsAs r)
    (hf : f (e.revised (w.1.staged.revisionOf a)) = e.revised r)
    (hs' : ({ s with arena := s.arena.update a f } : Store).AtRest made) :
    Tracks made ({ w.1 with phase := .active, staged := w.1.staged.recordRevision a r }, w.2)
      { s with arena := s.arena.update a f } := by
  refine ⟨rfl, h.recorded.revision a r, h.stored, hs', ⟨h.revised.tidy, fun b e' he' => ?_, ?_⟩,
    fun b r' hr' => ?_, h.links, h.contents⟩
  · exact Element.keepsMould_of_known (h.stored.sound.proper b e' he').kind
  · dsimp only
    rw [h.revised.eq, h.revised.tidy.map_update]
    refine h.revised.tidy.map_congr fun b e' he' => ?_
    rw [Staging.revisionOf_recordRevision]
    by_cases hab : a = b
    · subst hab
      obtain rfl := Option.some.inj (he.symm.trans he')
      rw [if_pos rfl, if_pos rfl]
      exact hf
    · rw [if_neg hab, if_neg (Ne.symm hab)]
  · dsimp only at hr'
    rw [Staging.revision?_recordRevision] at hr'
    split at hr'
    next hb =>
      obtain rfl := Option.some.inj hr'
      exact ⟨e, hb ▸ he, hr⟩
    next => exact h.settled b r' hr'

/-- A question on the way may refuse the call. -/
theorem asking {α β : Type} {f : Work → Except Failure β} {g : α → Answer} {x : β → Step Work α}
    {y : Step Store Answer} (h : Tracks made w s)
    (hx : ∀ r, f w = .ok r → Mirrors made w s (g <$> x r) y) :
    Mirrors made w s (g <$> (Step.ask f >>= x)) y := by
  rcases Step.ask_bind_cases f x w with ⟨r, hr, hrun⟩ | ⟨e, hrefused⟩
  · rw [Mirrors, Step.on_map, hrun, ← Step.on_map]
    exact hx r hr
  · rw [Mirrors, Step.on_map, hrefused]
    exact .inl ⟨e, w, rfl, h⟩

/-- What is staged now is done at once in the direct run. -/
theorem staging {f : Staging → Staging} {y : Step Store Unit} (h : Tracks made w s)
    (hrun : y.on s = (.ok (), s'))
    (h' : Tracks made ({ w.1 with phase := .active, staged := f w.1.staged }, w.2) s') :
    Mirrors made w s ((fun _ => .done) <$> Work.onTransaction (Transaction.stage f))
      ((fun _ => .done) <$> y) := by
  rw [Mirrors, Step.on_map, Step.on_map, hrun, Work.on_onTransaction, Transaction.stage,
    Transaction.on_record h.isOpen]
  exact .inr ⟨.done, _, s', rfl, rfl, h'⟩

theorem mirrors_narrow (h : Tracks made w s) (a : Address) (type : ElementType) :
    Mirrors made w s ((Call.narrow a type).run c) ((Call.narrow a type).action c).run := by
  refine h.asking (f := fun w => c.requireWrite w.2 a) fun _ hwrite => ?_
  refine h.asking (f := fun w => typeOf c w a) fun shown hshown => ?_
  obtain ⟨e, he⟩ := Session.exists_of_requireWrite hwrite
  cases hm : shown.narrow? type with
  | none => exact .inl ⟨.invalidType .notNarrower, w, rfl, h⟩
  | some m =>
    -- the direct run has the type that the draft shows
    obtain ⟨e', he', htype⟩ := Store.typeOf_ok_iff.1 (h.foretells.type a shown hshown)
    obtain rfl := Option.some.inj ((h.find? he).symm.trans he')
    have hnarrowed : s.narrowed a type = .ok m :=
      Store.narrowed_ok_iff.2 ⟨_, he', by rw [htype, hm]⟩
    rw [(h.narrowsAs he).type_revised] at htype
    subst htype
    have hnarrows : e.NarrowsAs { w.1.staged.revisionOf a with type := some m } := by
      rintro m' ⟨rfl⟩
      exact (h.narrowsAs he).narrowed hm
    have hrun : (Store.narrow a type).on s
        = (.ok (), { s with arena := s.arena.update a ({ · with type := m }) }) := by
      rw [Store.narrow, Step.on_bind, Step.on_ask, hnarrowed]
      exact Store.on_alter (h.find? he)
    have hs' := h.direct.narrow a type
    rw [hrun] at hs'
    refine h.asking (f := Except.ok) fun w' hw' => ?_
    obtain rfl := Except.ok.inj hw'
    refine h.staging hrun
      (h.revise (r := { w.1.staged.revisionOf a with type := some m }) he hnarrows ?_ hs')
    simp [Element.revised, hnarrows m rfl]

theorem mirrors_setAccess {access : Access} (h : Tracks made w s) (haccess : access.InUse)
    (a : Address) :
    Mirrors made w s ((Call.setAccess a access).run c)
      ((Call.setAccess a access).action c).run := by
  refine h.asking (f := fun w => c.requireWrite w.2 a) fun _ hwrite => ?_
  obtain ⟨e, he⟩ := Session.exists_of_requireWrite hwrite
  have hrun : (Store.setAccess a access).on s
      = (.ok (), { s with arena := s.arena.update a ({ · with access }) }) :=
    Store.on_alter (h.find? he)
  have hs' := h.direct.setAccess (a := a) haccess
  rw [hrun] at hs'
  refine h.asking (f := Except.ok) fun w' hw' => ?_
  obtain rfl := Except.ok.inj hw'
  exact h.staging hrun
    (h.revise (r := { w.1.staged.revisionOf a with access := some access }) he (h.narrowsAs he)
      rfl hs')

theorem mirrors_setContent (h : Tracks made w s) (a : Address) (bytes : Bytes) :
    Mirrors made w s ((Call.setContent a bytes).run c)
      ((Call.setContent a bytes).action c).run := by
  refine h.asking (f := fun w => c.requireWrite w.2 a) fun _ _ => ?_
  refine h.asking (f := fun w => w.2.requireLink a) fun _ hlink => ?_
  have hat := Store.requireLink_iff.1 hlink
  have hrun : (Store.setContent a bytes).on s = (.ok (), s.changeContents (·.set a bytes)) := by
    rw [Store.setContent, Step.on_bind, Step.on_ask,
      Store.requireLink_iff.2 (h.isLinkAt.trans hat)]
    rfl
  have hs' := h.direct.setContent a bytes
  rw [hrun] at hs'
  refine h.staging hrun ⟨rfl, h.recorded.content a bytes, h.stored, hs', h.revised, h.settled,
    fun b hb => ?_, fun b => ?_⟩
  · dsimp only at hb
    rw [Staging.content?_recordContent] at hb
    split at hb
    next hba => exact hba ▸ hat
    next => exact h.links b hb
  · dsimp only
    rw [Staging.content?_recordContent]
    refine (s.contents.get?_set a b bytes).trans ?_
    by_cases hab : a = b
    · rw [if_pos hab, if_pos hab.symm]
      rfl
    · rw [if_neg hab, if_neg (Ne.symm hab), h.contents]

/-! ## Runs of calls -/

/-- One call on the transaction, and at once. -/
theorem mirrors (h : Tracks made w s) (hc : c.levels.InUse) (k : Call) (hk : k.Admissible) :
    Mirrors made w s (k.run c) (k.action c).run := by
  cases k with
  | addNode type => exact h.mirrors_addNode hc type
  | addLink type => exact h.mirrors_addLink hc type
  | connect type source target => exact h.mirrors_connect hc type source target
  | erase a => exact h.mirrors_erase a
  | narrow a type => exact h.mirrors_narrow a type
  | setAccess a access => exact h.mirrors_setAccess hk a
  | setContent a bytes => exact h.mirrors_setContent a bytes

/-- The calls that succeed give the same answers at once, and the direct run keeps up with them. -/
theorem runAll {ks : List Call} (h : Tracks made w s) (hc : c.levels.InUse)
    (hks : ∀ k ∈ ks, k.Admissible) :
    ∃ done w' s' made', Call.runAll c ks w = (done, w') ∧
      Action.runAll (done.map Prod.fst) s = (done.map fun p => .ok p.2, s') ∧
      Tracks made' w' s' := by
  induction ks generalizing made w s with
  | nil => exact ⟨[], w, s, made, rfl, rfl, h⟩
  | cons k ks ih =>
    have hrest := fun l hl => hks l (List.mem_cons_of_mem k hl)
    rcases h.mirrors hc k (hks k List.mem_cons_self) with
      ⟨f, w₁, hrun, h₁⟩ | ⟨y, w₁, s₁, hrun, hrun', h₁⟩
    · obtain ⟨done, w', s', made', hcalls, hactions, h'⟩ := ih h₁ hrest
      refine ⟨done, w', s', made', ?_, hactions, h'⟩
      simp only [Call.runAll, hrun, hcalls]
    · obtain ⟨done, w', s', made', hcalls, hactions, h'⟩ := ih h₁ hrest
      refine ⟨(k.action c, y) :: done, w', s', made', ?_, ?_, h'⟩
      · simp only [Call.runAll, hrun, hcalls]
      · simp only [List.map_cons, Action.runAll, hrun', hactions]

end Tracks

/-- A transaction that was just begun stages nothing. -/
theorem tracks_begin {d : Desk} (h : d.store.AtRest made) :
    Tracks made (d.begin.1, d.begin.2.store) d.store where
  isOpen := rfl
  recorded := .nothing
  stored := h
  direct := h
  revised := ⟨h.sound.tidy, fun _ _ _ => rfl, (h.sound.tidy.map_eq_self fun _ _ _ => rfl).symm⟩
  settled _ _ hr := nomatch hr
  links _ hc := nomatch hc
  contents _ := rfl

end Draft

namespace Reached

variable {allowed : Settings → Prop} {made : List Address} {d : Desk} {c : Session}
  {ks : List Draft.Call}

/-- Whatever was reached, and whatever a session then calls on a new transaction: the calls that
succeed could as well be made at once, with the same answers, and the draft foretells what that
leaves, at its commit and before. -/
theorem draft_foretells (h : Reached allowed made d.store) (hc : c.levels.InUse)
    (hks : ∀ k ∈ ks, k.Admissible) :
    ∃ done w s, Draft.Call.runAll c ks (d.begin.1, d.begin.2.store) = (done, w) ∧
      Action.runAll (done.map Prod.fst) d.store = (done.map fun p => .ok p.2, s) ∧
      Draft.Foretells c w s := by
  obtain ⟨done, w, s, made', hcalls, hactions, htracks⟩ :=
    (Draft.tracks_begin h.atRest).runAll hc hks
  exact ⟨done, w, s, hcalls, hactions, htracks.foretells⟩

end Reached

/-- Makes a node and narrows its type in two steps, closes the node to others, changes the content
of the link and puts an arc from the node on it, erases the link with what hangs on it, and tries to
give a node a content. -/
def sampleCalls : List Draft.Call :=
  [.addNode .unknown, .narrow ⟨1, 7⟩ .const, .narrow ⟨1, 7⟩ .classNode,
    .setAccess ⟨1, 7⟩ .highest, .setContent ⟨1, 3⟩ [7], .connect .commonArc ⟨1, 7⟩ ⟨1, 3⟩,
    .erase ⟨1, 3⟩, .setContent ⟨1, 1⟩ [8]]

namespace Reached

/-- All calls but the last one succeed. -/
theorem draft_foretells_sampleDesk :
    (Reached (· = .small) sampleMade sampleDesk.store ∧ Access.highest.InUse ∧
      ∀ k ∈ sampleCalls, k.Admissible) ∧
    (Draft.Call.runAll ⟨.highest⟩ sampleCalls
      (sampleDesk.begin.1, sampleDesk.begin.2.store)).1.length = 7 ∧
    ∃ done w s,
      Draft.Call.runAll ⟨.highest⟩ sampleCalls (sampleDesk.begin.1, sampleDesk.begin.2.store)
        = (done, w) ∧
      Action.runAll (done.map Prod.fst) sampleDesk.store = (done.map fun p => .ok p.2, s) ∧
      Draft.Foretells ⟨.highest⟩ w s :=
  have hadmissible : ∀ k ∈ sampleCalls, k.Admissible := by
    simp [sampleCalls, Draft.Call.Admissible, Access.inUse_highest]
  ⟨⟨reached_sampleDesk, Access.inUse_highest, hadmissible⟩, by decide +kernel,
    reached_sampleDesk.draft_foretells (c := ⟨.highest⟩) Access.inUse_highest hadmissible⟩

end Reached

end SemanticNet
