import SemanticNet.Proofs.Calls
import SemanticNet.Proofs.Occupancy
import SemanticNet.Proofs.Outcomes

/-!
# Refusals

An operation that fails has done nothing. Whatever is asked of a store that was reached, by a
session or without one, a failure leaves the store as it was, slot by slot, but for the metric of
refusals when the memory is full; and it never tells of damage (`Reached.failures_harmless`). Most
failures are found in the arguments before anything is changed (`OnlyArguments`). What comes after a
change can not fail: a connector that has been stored is attached, a sweep is carried through, and a
plan is applied to its end (`Store.applyAll_ok`).
-/

namespace SemanticNet

/-! ## Faults of arguments -/

/-- A computation that fails on account of its arguments, if it fails. -/
def OnlyArguments {α : Type} (x : Except Failure α) : Prop := ∀ f, x = .error f → f.OfArguments

namespace OnlyArguments

variable {α β : Type} {x : Except Failure α} {g : α → Except Failure β} {f : Failure}

theorem ok (a : α) : OnlyArguments (.ok a) := fun _ h => by cases h

theorem error (hf : f.OfArguments) : OnlyArguments (.error f : Except Failure α) := by
  intro f' h
  cases h
  exact hf

theorem bind (hx : OnlyArguments x) (hg : ∀ a, OnlyArguments (g a)) : OnlyArguments (x >>= g) := by
  cases x with
  | ok a => exact hg a
  | error e => exact error (hx e rfl)

theorem map (hx : OnlyArguments x) (g : α → β) : OnlyArguments (g <$> x) := by
  cases x with
  | ok a => exact ok _
  | error e => exact error (hx e rfl)

theorem require {b : Bool} (hf : f.OfArguments) :
    OnlyArguments (unless b do throw f : Except Failure Unit) := by
  cases b with
  | true => exact ok _
  | false => exact error hf

end OnlyArguments

theorem Arena.onlyArguments_fetch (t : Arena) (a : Address) : OnlyArguments (t.fetch a) := by
  unfold fetch
  split
  · exact .ok _
  · split
    · exact .error trivial
    · exact .error trivial

namespace Store

variable {s s' : Store} {a : Address}

theorem onlyArguments_typeOf (s : Store) (a : Address) : OnlyArguments (s.typeOf a) :=
  (s.arena.onlyArguments_fetch a).bind fun _ => .ok _

theorem onlyArguments_accessOf (s : Store) (a : Address) : OnlyArguments (s.accessOf a) :=
  (s.arena.onlyArguments_fetch a).bind fun _ => .ok _

theorem onlyArguments_endsOf (s : Store) (a : Address) : OnlyArguments (s.endsOf a) := by
  refine (s.arena.onlyArguments_fetch a).bind fun e => ?_
  cases e.ends? with
  | some ends => exact .ok ends
  | none => exact .error trivial

theorem onlyArguments_ringSize (s : Store) (a : Address) (d : Direction) :
    OnlyArguments (s.ringSize a d) :=
  (s.arena.onlyArguments_fetch a).bind fun _ => .ok _

theorem onlyArguments_requireLink (s : Store) (a : Address) : OnlyArguments (s.requireLink a) :=
  (s.onlyArguments_typeOf a).bind fun _ => .require trivial

theorem onlyArguments_contentOf (s : Store) (a : Address) : OnlyArguments (s.contentOf a) :=
  (s.onlyArguments_requireLink a).bind fun _ => .ok _

theorem onlyArguments_narrowed (s : Store) (a : Address) (type : ElementType) :
    OnlyArguments (s.narrowed a type) := by
  refine (s.onlyArguments_typeOf a).bind fun t => ?_
  cases t.narrow? type with
  | some m => exact .ok m
  | none => exact .error trivial

/-! ### Plans -/

theorem onlyArguments_planRevision (s : Store) (a : Address) (r : Revision) :
    OnlyArguments (s.planRevision a r) := by
  unfold planRevision
  cases r.type with
  | some type => exact (s.onlyArguments_narrowed a type).bind fun _ => .ok _
  | none => exact (s.onlyArguments_typeOf a).bind fun _ => .ok _

theorem onlyArguments_planRevisions (s : Store) (rs : List (Address × Revision)) :
    OnlyArguments (s.planRevisions rs) := by
  induction rs with
  | nil => exact .ok _
  | cons p rs ih =>
    exact (s.onlyArguments_planRevision p.1 p.2).bind fun _ => ih.bind fun _ => .ok _

theorem onlyArguments_planContents (s : Store) (cs : List (Address × Bytes)) :
    OnlyArguments (s.planContents cs) := by
  induction cs with
  | nil => exact .ok _
  | cons p cs ih =>
    exact (s.onlyArguments_requireLink p.1).bind fun _ => ih.bind fun _ => .ok _

theorem onlyArguments_plan (s : Store) (b : Staging) : OnlyArguments (s.plan b) :=
  (s.onlyArguments_planRevisions b.revisions).bind fun _ =>
    (s.onlyArguments_planContents b.contents).bind fun _ => .ok _

/-! ## Plans are applied to their ends -/

/-- What a change needs of the element that it is for. -/
def Bears (s : Store) : Change → Prop
  | .setType a m => (s.arena.find? a).map (·.type.mould) = some m.mould
  | .setAccess a _ => (s.arena.find? a).isSome
  | .setContent a _ => s.arena.isLinkAt a = true

theorem Bears.outlined {k : Change} (hk : s.Bears k) :
    s.arena.Outlined ((apply k).on s).2.arena := by
  intro b
  cases k with
  | setType a m => exact map_outline_apply (k := .setType a m) hk
  | setAccess a access => exact map_outline_alter fun _ _ => rfl
  | setContent a bytes => exact map_outline_apply (k := .setContent a bytes) trivial

theorem Bears.of_outlined {k : Change} (hk : s.Bears k) (h : s.arena.Outlined s'.arena) :
    s'.Bears k := by
  have hmould : ∀ a, (s'.arena.find? a).map (·.type.mould)
      = (s.arena.find? a).map (·.type.mould) := by
    intro a
    have houtline := congrArg (Option.map Prod.snd) (h a)
    rwa [Option.map_map, Option.map_map] at houtline
  cases k with
  | setType a m => exact (hmould a).trans hk
  | setAccess a access =>
    show (s'.arena.find? a).isSome
    rw [h.isSome_find?]
    exact hk
  | setContent a bytes =>
    have hlink : ∀ t : Arena, t.isLinkAt a = ((t.find? a).map (·.type.mould)).any Prod.snd := by
      intro t
      rw [Arena.isLinkAt, Option.any_map]
      rfl
    have hat : s.arena.isLinkAt a = true := hk
    show s'.arena.isLinkAt a = true
    rw [hlink, hmould, ← hlink, hat]

theorem alter_ok {f : Element → Element} (ha : (s.arena.find? a).isSome) :
    ∃ s', (onArena (Arena.alter a f)).on s = (.ok (), s') := by
  obtain ⟨e, he⟩ := Option.isSome_iff_exists.1 ha
  exact ⟨_, on_alter he⟩

theorem Bears.apply_ok {k : Change} (hk : s.Bears k) : ∃ s', (apply k).on s = (.ok (), s') := by
  cases k with
  | setType a m =>
    obtain ⟨e, he, -⟩ := Option.map_eq_some_iff.1 hk
    exact alter_ok (Option.isSome_of_eq_some he)
  | setAccess a access => exact alter_ok hk
  | setContent a bytes =>
    have hlink : s.requireLink a = .ok () := requireLink_iff.2 hk
    refine ⟨changeContents (·.set a bytes) s, ?_⟩
    rw [apply, setContent, Step.on_bind, Step.on_ask, hlink]
    rfl

/-- Changes that a store bears do not get in each other's way. -/
theorem applyAll_ok {ks : List Change} (hks : ∀ k ∈ ks, s.Bears k) :
    ∃ s', (applyAll ks).on s = (.ok (), s') := by
  induction ks generalizing s with
  | nil => exact ⟨s, rfl⟩
  | cons k ks ih =>
    have hk := hks k List.mem_cons_self
    obtain ⟨s₁, hrun⟩ := hk.apply_ok
    have houtlined := hk.outlined
    rw [hrun] at houtlined
    obtain ⟨s₂, hrest⟩ := ih fun l hl => (hks l (List.mem_cons_of_mem k hl)).of_outlined houtlined
    refine ⟨s₂, ?_⟩
    rw [applyAll, Step.on_bind, hrun]
    exact hrest

theorem bears_planRevisions {rs : List (Address × Revision)} {ks : List Change}
    (hkind : ∀ a e, s.arena.find? a = some e → e.type.kind.isUnknown = false)
    (hks : s.planRevisions rs = .ok ks) : ∀ k ∈ ks, s.Bears k := by
  induction rs generalizing ks with
  | nil =>
    obtain rfl := Except.ok.inj hks
    exact List.forall_mem_nil _
  | cons p rs ih =>
    obtain ⟨a, r⟩ := p
    obtain ⟨ks₁, ks₂, hfirst, hrest, rfl⟩ := planRevisions_cons_ok_iff.1 hks
    obtain ⟨e, he, -, rfl⟩ := planRevision_ok_iff.1 hfirst
    intro k hk
    rcases List.mem_append.1 hk with hk | hk
    · rcases List.mem_append.1 hk with hk | hk
      · obtain ⟨m, hm, rfl⟩ := List.mem_map.1 hk
        obtain ⟨type, -, hnarrow⟩ := Option.bind_eq_some_iff.1 (Option.mem_toList.1 hm)
        show (s.arena.find? a).map (·.type.mould) = some m.mould
        rw [he, ElementType.mould_of_narrow? hnarrow (hkind a e he)]
        rfl
      · obtain ⟨access, -, rfl⟩ := List.mem_map.1 hk
        exact Option.isSome_of_eq_some he
    · exact ih hrest k hk

/-- A store bears what it has planned. -/
theorem AtRest.bears_plan {made : List Address} {b : Staging} {ks : List Change}
    (h : s.AtRest made) (hks : s.plan b = .ok ks) : ∀ k ∈ ks, s.Bears k := by
  obtain ⟨front, hfront, hrest⟩ := bind_eq_ok_iff.1 hks
  obtain ⟨back, hback, hall⟩ := bind_eq_ok_iff.1 hrest
  obtain rfl := Except.ok.inj hall
  obtain ⟨hlinks, rfl⟩ := planContents_ok_iff.1 hback
  intro k hk
  rcases List.mem_append.1 hk with hk | hk
  · exact bears_planRevisions (fun a e he => (h.sound.proper a e he).kind) hfront k hk
  · obtain ⟨p, hp, rfl⟩ := List.mem_map.1 hk
    exact hlinks p hp

/-! ## Harmless failures -/

/-- What is counted of a failure: that there was no room, when counting is on. -/
def noting (s : Store) : Failure → Store
  | .fullMemory _ => s.count .refusedFull 1
  | _ => s

theorem noting_of_arguments {f : Failure} (hf : f.OfArguments) : s.noting f = s := by
  cases f with
  | fullMemory n => exact hf.elim
  | _ => rfl

/-- If the step fails in `s` then nothing is different after it but what is counted of the failure,
and it is not on account of damage. -/
def Harmless {α : Type} (s : Store) (x : Step Store α) : Prop :=
  ∀ f s', x.on s = (.error f, s') → s' = s.noting f ∧ ∀ d, f ≠ .corrupt d

section Harmless

variable {α β : Type} {x : Step Store α} {f : Failure} {made : List Address} {e : Element}

theorem harmless_of_ok {r : α} (h : x.on s = (.ok r, s')) : s.Harmless x := by
  intro f s'' hfail
  rw [h] at hfail
  cases hfail

theorem harmless_of_arguments (hf : f.OfArguments) (h : x.on s = (.error f, s)) :
    s.Harmless x := by
  intro f' s' hfail
  rw [h] at hfail
  obtain ⟨hsame, rfl⟩ := Prod.ext_iff.1 hfail
  obtain rfl : f = f' := Except.error.inj hsame
  refine ⟨(noting_of_arguments hf).symm, fun d hd => ?_⟩
  subst hd
  exact hf

theorem harmless_throw (hf : f.OfArguments) : s.Harmless (throw f : Step Store α) :=
  harmless_of_arguments hf rfl

theorem harmless_full {n : Nat} (h : x.on s = (.error (.fullMemory n), s.count .refusedFull 1)) :
    s.Harmless x := by
  intro f' s' hfail
  rw [h] at hfail
  obtain ⟨hf, rfl⟩ := Prod.ext_iff.1 hfail
  obtain rfl : Failure.fullMemory n = f' := Except.error.inj hf
  exact ⟨rfl, fun d => Failure.noConfusion⟩

theorem Harmless.congr {y : Step Store α} (hx : s.Harmless x) (h : y.on s = x.on s) :
    s.Harmless y := by
  intro f s' hfail
  exact hx f s' (h ▸ hfail)

theorem Harmless.map (hx : s.Harmless x) (g : α → β) : s.Harmless (g <$> x) := by
  intro f s' hfail
  rw [Step.on_map] at hfail
  refine hx f s' ?_
  rcases hrun : x.on s with ⟨e | r, t⟩
  · rw [hrun] at hfail
    obtain ⟨hsame, rfl⟩ := Prod.ext_iff.1 hfail
    obtain rfl : e = f := Except.error.inj hsame
    rfl
  · rw [hrun] at hfail
    cases (Prod.ext_iff.1 hfail).1

theorem Harmless.ask_bind {g : Store → Except Failure α} {y : α → Step Store β}
    (hg : OnlyArguments (g s)) (hy : ∀ a, g s = .ok a → s.Harmless (y a)) :
    s.Harmless (Step.ask g >>= y) := by
  cases hs : g s with
  | ok a =>
    refine (hy a hs).congr ?_
    rw [Step.on_bind, Step.on_ask, hs]
  | error f =>
    refine harmless_of_arguments (hg f hs) ?_
    rw [Step.on_bind, Step.on_ask, hs]

theorem harmless_ask {g : Store → Except Failure α} (hg : OnlyArguments (g s)) :
    s.Harmless (Step.ask g) := by
  intro f s' hfail
  rw [Step.on_ask] at hfail
  obtain ⟨hf, rfl⟩ := Prod.ext_iff.1 hfail
  exact harmless_of_arguments (hg f hf) hfail f _ hfail

/-! ### Creations -/

/-- When there is no room the arena stays as it is. -/
theorem insert_full {n : Nat}
    (h : (Arena.allocate e).on s.arena = (.error (.fullMemory n), s.arena)) :
    (insert e).on s = (.error (.fullMemory n), s.count .refusedFull 1) := by
  have harena : onArena (Arena.allocate e) s = (.error (.fullMemory n), s) := onArena_of_on h
  show insert e s = _
  rw [insert, Machinery.insert, harena]

/-- An element is made to its end, or there is no room for it. -/
theorem Sound.harmless_make (h : s.Sound made) (hempty : ∀ d, e.ring d = {})
    (hends : ∀ p ∈ e.places, (s.arena.find? p.1).isSome) : s.Harmless (Store.make e) := by
  rcases h.make hempty hends with ⟨c, t, s', hrun, -⟩ | ⟨s', -, hallocate, -⟩
  · exact harmless_of_ok hrun
  · refine harmless_full (n := s.arena.maxSegments) ?_
    rw [Store.make, Machinery.make, Step.on_bind, insert_full hallocate]

theorem AtRest.harmless_creation {k : Action} (h : s.AtRest made) (hk : k.element? = some e) :
    s.Harmless k.run := by
  obtain ⟨x, hx, hif⟩ := h.calm.makesIf hk
  rw [hx]
  refine Harmless.map ?_ Answer.made
  rcases hif with ⟨hadmits, hrun⟩ | ⟨-, f, hrun, hf⟩
  · exact (h.sound.harmless_make (ring_of_element? hk) (hadmits.isSome_find? hk)).congr hrun
  · exact harmless_of_arguments hf hrun

/-! ### Erasures, changes and commits -/

theorem AtRest.harmless_erase (h : s.AtRest made) (a : Address) : s.Harmless (Store.erase a) := by
  cases ha : s.arena.find? a with
  | some e =>
    obtain ⟨order, s', hrun, -⟩ := h.erase (Option.isSome_of_eq_some ha)
    exact harmless_of_ok hrun
  | none =>
    refine Harmless.ask_bind (s.arena.onlyArguments_fetch a) fun e he => ?_
    rw [Arena.fetch_ok_iff, ha] at he
    cases he

theorem harmless_alter (a : Address) (f : Element → Element) :
    s.Harmless (onArena (Arena.alter a f)) := by
  cases ha : s.arena.find? a with
  | some e => exact harmless_of_ok (on_alter ha)
  | none =>
    have hfetch : s.arena.fetch a
        = .error (if a.isEmpty then .invalidParams .emptyAddress else .notLive a) := by
      rw [Arena.fetch, ha]
    refine harmless_of_arguments (s.arena.onlyArguments_fetch a _ hfetch) ?_
    rw [on_onArena, Arena.alter, Step.on_bind, Step.on_ask, hfetch]

theorem harmless_narrow (a : Address) (type : ElementType) : s.Harmless (narrow a type) :=
  Harmless.ask_bind (s.onlyArguments_narrowed a type) fun _ _ => harmless_alter a _

theorem harmless_setContent (a : Address) (bytes : Bytes) : s.Harmless (setContent a bytes) :=
  Harmless.ask_bind (s.onlyArguments_requireLink a) fun _ _ => harmless_of_ok rfl

/-- A commit is refused before anything is changed. -/
theorem AtRest.harmless_commit (h : s.AtRest made) (x : Transaction) :
    s.Harmless (Action.commit x).run := by
  refine Harmless.map ?_ _
  cases hopen : x.isOpen with
  | false =>
    refine harmless_of_arguments (f := .invalidState .finished) trivial ?_
    rw [Step.on_within, Transaction.commit_finished hopen]
  | true =>
    have hopened : (Work.onTransaction (Step.ask Transaction.ensureOpen)).on (x, s)
        = (.ok (), (x, s)) := by
      rw [Work.on_onTransaction, Step.on_ask, Transaction.ensureOpen_ok hopen]
    cases hplan : s.plan x.staged with
    | ok ks =>
      obtain ⟨s', happly⟩ := applyAll_ok (h.bears_plan hplan)
      have hstore : (Work.onStore (Store.applyAll ks)).on (x, s) = (.ok (), (x, s')) := by
        rw [Work.on_onStore, happly]
      have hrun : Transaction.commit.on (x, s)
          = (.ok (), ({ x with phase := .committed, staged := {} }, s')) := by
        rw [Transaction.commit, Step.on_bind, hopened]
        simp only [Step.on_bind, Step.on_tryCatch, Step.on_ask, hplan, hstore]
        rfl
      have hcommit : (Step.within (fun s => (x, s)) (fun w _ => w.2) default
          Transaction.commit : Step Store Unit).on s = (.ok (), s') := by
        rw [Step.on_within, hrun]
      exact harmless_of_ok hcommit
    | error f =>
      have hrun : Transaction.commit.on (x, s) = (.error f, ({ x with phase := .active }, s)) := by
        rw [Transaction.commit, Step.on_bind, hopened]
        simp only [Step.on_bind, Step.on_tryCatch, Step.on_ask, hplan]
        rfl
      refine harmless_of_arguments (s.onlyArguments_plan x.staged f hplan) ?_
      rw [Step.on_within, hrun]

end Harmless

/-- No operation does anything to a store at rest before it fails. -/
theorem AtRest.harmless_action {made : List Address} (h : s.AtRest made) (k : Action) :
    s.Harmless k.run := by
  cases k with
  | addNode | addLink | connect => exact h.harmless_creation rfl
  | erase a => exact (h.harmless_erase a).map _
  | narrow a type => exact (harmless_narrow a type).map _
  | setAccess a access => exact (harmless_alter a _).map _
  | setContent a bytes => exact (harmless_setContent a bytes).map _
  | commit x => exact h.harmless_commit x

end Store

/-! ## Sessions -/

namespace Session

variable {s : Store} {α β : Type}

theorem onlyArguments_requireRead (c : Session) (s : Store) (a : Address) :
    OnlyArguments (c.requireRead s a) :=
  (s.onlyArguments_accessOf a).bind fun _ => .require trivial

theorem onlyArguments_requireWrite (c : Session) (s : Store) (a : Address) :
    OnlyArguments (c.requireWrite s a) :=
  (s.onlyArguments_accessOf a).bind fun _ => .require trivial

theorem onlyArguments_endsOf (c : Session) (s : Store) (a : Address) :
    OnlyArguments (c.endsOf s a) :=
  (c.onlyArguments_requireRead s a).bind fun _ => s.onlyArguments_endsOf a

theorem onlyArguments_contentOf (c : Session) (s : Store) (a : Address) :
    OnlyArguments (c.contentOf s a) :=
  (c.onlyArguments_requireRead s a).bind fun _ => s.onlyArguments_contentOf a

/-- To ask for the right to write does no harm. -/
theorem harmless_writing (c : Session) (a : Address) {g : α → β} {x : Step Store α}
    (hx : s.Harmless (g <$> x)) :
    s.Harmless (g <$> (Step.ask (c.requireWrite · a) >>= fun _ => x)) := by
  rw [map_bind]
  exact Store.Harmless.ask_bind (c.onlyArguments_requireWrite s a) fun _ _ => hx

end Session

/-- A call that is refused for want of rights has done nothing, and the others are operations. -/
theorem Draft.Call.harmless_direct {s : Store} {made : List Address} (h : s.AtRest made)
    (c : Session) (k : Draft.Call) : s.Harmless (k.direct c) := by
  have haction := h.harmless_action (k.action c)
  cases k with
  | addNode type => exact haction
  | addLink type => exact haction
  | connect type source target =>
    show s.Harmless (Answer.made <$> c.connect type source target)
    rw [Session.connect]
    split
    · exact (Store.harmless_throw (f := .invalidParams .emptyEndpoint) trivial).map _
    · exact c.harmless_writing source (c.harmless_writing target haction)
  | erase a => exact c.harmless_writing a haction
  | narrow a type => exact c.harmless_writing a haction
  | setAccess a access => exact c.harmless_writing a haction
  | setContent a bytes => exact c.harmless_writing a haction

/-! ## Walks -/

namespace Store

variable {s : Store}

theorem onlyArguments_open? (pattern : Pattern) (levels : Access) :
    OnlyArguments (Triples.open? pattern levels) := by
  unfold Triples.open?
  split
  · exact .ok _
  · exact .error trivial

theorem onlyArguments_openMarked? (pattern : MarkedPattern) (levels : Access) :
    OnlyArguments (Quintuples.open? pattern levels) := by
  refine (onlyArguments_open? pattern.main levels).bind fun main => ?_
  split
  · exact .error trivial
  · exact .ok _

/-- A walk is refused for its pattern, or it is walked to its end. -/
theorem harmless_triples (pattern : Pattern) (levels : Access) (limit : Option Nat) :
    s.Harmless (triples pattern levels limit) := by
  cases hopen : Triples.open? pattern levels with
  | ok w => exact harmless_of_ok (by rw [triples, hopen]; rfl)
  | error f =>
    refine harmless_of_arguments (onlyArguments_open? pattern levels f hopen) ?_
    rw [triples, hopen]
    rfl

theorem harmless_quintuples (pattern : MarkedPattern) (levels : Access) (limit : Option Nat) :
    s.Harmless (quintuples pattern levels limit) := by
  cases hopen : Quintuples.open? pattern levels with
  | ok w => exact harmless_of_ok (by rw [quintuples, hopen]; rfl)
  | error f =>
    refine harmless_of_arguments (onlyArguments_openMarked? pattern levels f hopen) ?_
    rw [quintuples, hopen]
    rfl

end Store

/-! ## Requests -/

/-- What may be asked about one element. -/
inductive Question where
  | type
  | access
  | ends
  | ringSize (d : Direction)
  | content
deriving DecidableEq, Repr

/-- What may come back of a request. -/
inductive Reply where
  | answer (r : Answer)
  | type (t : ElementType)
  | access (l : Access)
  | ends (p : Address × Address)
  | address (a : Address)
  | size (n : UInt32)
  | content (bytes : Option Bytes)
  | text (t : Option String)
  | triples (ts : List Triple)
  | quintuples (qs : List Quintuple)
deriving DecidableEq

namespace Question

/-- The answer that the store gives. -/
def ask (s : Store) (a : Address) : Question → Except Failure Reply
  | type => .type <$> s.typeOf a
  | access => .access <$> s.accessOf a
  | ends => .ends <$> s.endsOf a
  | ringSize d => .size <$> s.ringSize a d
  | content => .content <$> s.contentOf a

/-- The answer that a session gets. -/
def askAs (c : Session) (s : Store) (a : Address) : Question → Except Failure Reply
  | type => .type <$> c.typeOf s a
  | access => .access <$> c.accessOf s a
  | ends => .ends <$> c.endsOf s a
  | ringSize d => .size <$> c.ringSize s a d
  | content => .content <$> c.contentOf s a

theorem onlyArguments_ask (q : Question) (s : Store) (a : Address) :
    OnlyArguments (q.ask s a) := by
  cases q with
  | type => exact (s.onlyArguments_typeOf a).map _
  | access => exact (s.onlyArguments_accessOf a).map _
  | ends => exact (s.onlyArguments_endsOf a).map _
  | ringSize d => exact (s.onlyArguments_ringSize a d).map _
  | content => exact (s.onlyArguments_contentOf a).map _

/-- A session is asked for its rights first. -/
theorem onlyArguments_askAs (q : Question) (c : Session) (s : Store) (a : Address) :
    OnlyArguments (q.askAs c s a) := by
  have hrights := c.onlyArguments_requireRead s a
  cases q with
  | type => exact (hrights.bind fun _ => s.onlyArguments_typeOf a).map _
  | access => exact (hrights.bind fun _ => s.onlyArguments_accessOf a).map _
  | ends => exact (hrights.bind fun _ => s.onlyArguments_endsOf a).map _
  | ringSize d => exact (hrights.bind fun _ => s.onlyArguments_ringSize a d).map _
  | content => exact (hrights.bind fun _ => s.onlyArguments_contentOf a).map _

end Question

/-- What may be asked of a store, with the session that asks if there is one. -/
inductive Request where
  | act (k : Action)
  | call (c : Session) (k : Draft.Call)
  | ask (q : Question) (a : Address)
  | askAs (c : Session) (q : Question) (a : Address)
  | sourceOf (c : Session) (a : Address)
  | targetOf (c : Session) (a : Address)
  | textOf (c : Session) (a : Address)
  | triples (c : Session) (pattern : Pattern) (limit : Option Nat)
  | quintuples (c : Session) (pattern : MarkedPattern) (limit : Option Nat)

def Request.run : Request → Step Store Reply
  | act k => .answer <$> k.run
  | call c k => .answer <$> k.direct c
  | ask q a => Step.ask fun s => q.ask s a
  | askAs c q a => Step.ask fun s => q.askAs c s a
  | sourceOf c a => Step.ask fun s => .address <$> c.sourceOf s a
  | targetOf c a => Step.ask fun s => .address <$> c.targetOf s a
  | textOf c a => Step.ask fun s => .text <$> c.textOf s a
  | triples c pattern limit => .triples <$> c.triples pattern limit
  | quintuples c pattern limit => .quintuples <$> c.quintuples pattern limit

theorem Store.AtRest.harmless {s : Store} {made : List Address} (h : s.AtRest made) (q : Request) :
    s.Harmless q.run := by
  cases q with
  | act k => exact (h.harmless_action k).map _
  | call c k => exact (k.harmless_direct h c).map _
  | ask q a => exact Store.harmless_ask (q.onlyArguments_ask s a)
  | askAs c q a => exact Store.harmless_ask (q.onlyArguments_askAs c s a)
  | sourceOf c a =>
    exact Store.harmless_ask (((c.onlyArguments_endsOf s a).bind fun _ => .ok _).map _)
  | targetOf c a =>
    exact Store.harmless_ask (((c.onlyArguments_endsOf s a).bind fun _ => .ok _).map _)
  | textOf c a =>
    exact Store.harmless_ask (((c.onlyArguments_contentOf s a).bind fun _ => .ok _).map _)
  | triples c pattern limit => exact (Store.harmless_triples pattern c.levels limit).map _
  | quintuples c pattern limit => exact (Store.harmless_quintuples pattern c.levels limit).map _

/-- Whatever was reached, a request that fails leaves the store exactly as it was, but for the
metric of refusals when the memory is full, and it never finds damage. -/
theorem Reached.failures_harmless {allowed : Settings → Prop} {made : List Address} {s s' : Store}
    {q : Request} {f : Failure} (h : Reached allowed made s) (hfail : q.run.on s = (.error f, s')) :
    s' = s.noting f ∧ ∀ d, f ≠ .corrupt d :=
  h.atRest.harmless q f s' hfail

/-- Room for one element, and counting on. -/
def singleSettings : Settings := { maxSegments := 1, segmentCapacity := 1, metrics := true }

def fullStore : Store :=
  (Action.runAll [.addNode .const .lowest] (.ofSettings singleSettings)).2

theorem reached_fullStore : ∃ made, Reached (· = singleSettings) made fullStore := by
  have hadmissible : ∀ k ∈ [Action.addNode .const .lowest], k.Admissible := by
    simp [Action.Admissible, Access.inUse_lowest]
  exact ⟨_, (@Reached.fresh (· = singleSettings) _ rfl).runAll hadmissible⟩

/-- A second node finds no room, which is counted, and an arc to nowhere is refused. -/
theorem Reached.failures_harmless_fullStore :
    (∃ made, Reached (· = singleSettings) made fullStore) ∧
    (Request.call ⟨.highest⟩ (.addNode .const)).run.on fullStore
      = (.error (.fullMemory 1), fullStore.count .refusedFull 1) ∧
    (Request.act (.connect .commonArc ⟨1, 1⟩ ⟨7, 7⟩ .lowest)).run.on fullStore
      = (.error (.notLive ⟨7, 7⟩), fullStore) := by
  obtain ⟨made, h⟩ := reached_fullStore
  have hfull : ((Request.call ⟨.highest⟩ (.addNode .const)).run.on fullStore).1
      = .error (.fullMemory 1) := by
    decide +kernel
  have hdead : ((Request.act (.connect .commonArc ⟨1, 1⟩ ⟨7, 7⟩ .lowest)).run.on fullStore).1
      = .error (.notLive ⟨7, 7⟩) := by
    decide +kernel
  refine ⟨⟨made, h⟩, Prod.ext hfull ?_, Prod.ext hdead ?_⟩
  · exact (h.failures_harmless (Prod.ext hfull rfl)).1
  · exact (h.failures_harmless (Prod.ext hdead rfl)).1

end SemanticNet
