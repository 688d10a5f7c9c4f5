import SemanticNet.Proofs.Assigning

/-!
# Resolving names

A session that resolves a name finds the element that has it, or makes an element and gives it the
name, or fails, and the graph is the same as before (`Reached.resolve_cases`).
-/

namespace SemanticNet

variable {allowed : Settings → Prop} {made : List Address} {s s' s₁ : Store} {c : Session}
  {relation a : Address} {bytes : Bytes} {name : String} {type : ElementType} {n : Naming}

/-- A name is resolved by making an element for it. -/
structure Naming.Makes (allowed : Settings → Prop) (made : List Address) (c : Session)
    (relation : Address) (bytes : Bytes) (s s' : Store) (n : Naming) : Prop where
  relation : n.relation = relation
  reached : Reached allowed (n.mark :: n.arc :: n.link :: n.element :: made) s'
  steps : ∃ s₁ e, Reached allowed (n.element :: made) s₁ ∧ s.Extends s₁ [n.element] ∧
    s₁.arena.bare? n.element = some (Element.bare e) ∧ e.access = c.levels ∧
    s₁.contents.get? n.element = none ∧ Given c bytes s₁ s' n

/-- What it comes to when a session resolves a name. -/
inductive Naming.Resolves (allowed : Settings → Prop) (made : List Address) (c : Session)
    (relation : Address) (name : String) (s : Store) : Except Failure Address × Store → Prop where
  | found {n : Naming} (k : Scans) (hname : isValid name = true)
      (hn : s.named? c relation (Utf8.encode name) = some n) :
      Resolves allowed made c relation name s (.ok n.element, s.noteScans k)
  | made {n : Naming} {s' : Store} (hname : isValid name = true)
      (hnone : s.named? c relation (Utf8.encode name) = none)
      (hn : Makes allowed made c relation (Utf8.encode name) s s' n) :
      Resolves allowed made c relation name s (.ok n.element, s')
  | failed {p : Except Failure Address × Store} (hp : Fails allowed s p) :
      Resolves allowed made c relation name s p

/-- The part of resolving a name that makes an element for it, by the step `x`. -/
def Naming.supply (c : Session) (relation : Address) (name : String) (x : Step Store Address) :
    Step Store Address := do
  let a ← x
  try
    let _ ← assign c relation a name
    pure a
  catch f =>
    let _ ← c.erase a
    throw f

/-- An element is made for a name that is not in use as far as the session may see. -/
theorem Reached.supply_cases {t : Store} {x : Step Store Address} {e : Element}
    (h : Reached allowed made s) (ha : s.Agrees t) (ht : Reached allowed made t)
    (hc : c.levels.InUse) (hname : Naming.isValid name = true)
    (hnone : s.named? c relation (Utf8.encode name) = none) (hx : c.Makes x e)
    (hconnection : e.connection = none) :
    Naming.Resolves allowed made c relation name s ((Naming.supply c relation name x).on t) := by
  rw [Naming.supply, Step.on_bind]
  rcases ht.adds hc hx with ⟨a, s₁, hrun, h₁, hcreated⟩ | ⟨f, s₁, hrun, h₁, ha₁⟩
  · have hx₁ : s.Extends s₁ [a] :=
      ((Store.Extends.refl s).agrees ha).createdAlone hcreated hconnection
    rw [hrun]
    dsimp only
    rw [Step.on_tryCatch, Step.on_bind]
    rcases h₁.assign_cases hc relation a name with
      ⟨-, -, n, s', hassign, rfl, hrelation, h', hn⟩ | ⟨f, s₂, made', hassign, h₂, hsame⟩
    · rw [hassign]
      have hcontent : s₁.contents.get? n.element = none := by
        rw [hcreated.contents]
        exact ht.atRest.content_of_dead hcreated.grown.fresh
      exact .made hname hnone
        ⟨hrelation, h', s₁, e, h₁, hx₁, hcreated.bare?_new, hx.access, hcontent, hn⟩
    · -- the element alone is left, and the session erases it
      have hbegun : s.Begun s₂ [a] a := .alone (hx₁.sameGraph hsame)
      have hwrite : c.MayWrite s₂ a :=
        Store.mayWrite_of_bare ((hsame.bare a).trans hcreated.bare?_new) hx.access
      obtain ⟨order, s₃, herase, h₃, hsame₃⟩ := h.withdraws h₂ hc hbegun hwrite
      rw [hassign]
      dsimp only
      rw [Step.on_bind, herase]
      exact .failed ⟨f, s₃, _, rfl, h₃, hsame₃⟩
  · rw [hrun]
    exact .failed (Naming.fails_of_agrees h₁ (ha.trans ha₁))

theorem Reached.resolve_cases (h : Reached allowed made s) (hc : c.levels.InUse)
    (relation : Address) (name : String) (type : ElementType) :
    Naming.Resolves allowed made c relation name s
      ((Naming.resolve c relation name type).on s) := by
  rw [Naming.resolve, Naming.elementNamed?, Step.on_bind, Step.on_bind]
  cases hvalid : Naming.isValid name with
  | false =>
    rw [Store.on_find?_invalid hvalid]
    exact .failed (Naming.fails_of_agrees h (.refl s))
  | true =>
    rcases h.atRest.on_find?_cases c relation hvalid with ⟨k, hfind⟩ | ⟨f, hfind⟩
    · rw [hfind]
      cases hnamed : s.named? c relation (Utf8.encode name) with
      | some n => exact .found k hvalid hnamed
      | none =>
        have hagrees := s.agrees_noteScans k
        dsimp only [Step.on_pure, Option.map_none]
        split
        · exact h.supply_cases hagrees (h.noteScans k) hc hvalid hnamed (c.makes_addLink type) rfl
        · exact h.supply_cases hagrees (h.noteScans k) hc hvalid hnamed (c.makes_addNode type) rfl
    · rw [hfind]
      exact .failed (Naming.fails_of_agrees h (.refl s))

/-! ## Failures -/

/-- When an element gets no name or a name is not resolved, for whatever reason, the graph is the
same as before: whatever was made on the way is gone, also from the rings of the element and of the
relation node. -/
theorem Reached.failed_naming_leaves_graph (h : Reached allowed made s) (hc : c.levels.InUse)
    (relation a : Address) (name : String) (type : ElementType) :
    (∀ f s', (Naming.assign c relation a name).on s = (.error f, s') → s.SameGraph s') ∧
      ∀ f s', (Naming.resolve c relation name type).on s = (.error f, s') → s.SameGraph s' := by
  constructor
  · intro f s' hrun
    rcases h.assign_cases hc relation a name with
      ⟨-, -, n, s'', hdone, -⟩ | ⟨f', s'', made', hfail, -, hsame⟩
    · cases (Prod.mk.inj (hrun.symm.trans hdone)).1
    · rw [(Prod.mk.inj (hrun.symm.trans hfail)).2]
      exact hsame
  · intro f s' hrun
    have hcases := h.resolve_cases hc relation name type
    rw [hrun] at hcases
    cases hcases with
    | failed hfails =>
      obtain ⟨f', s'', made', hfail, -, hsame⟩ := hfails
      rw [(Prod.mk.inj hfail).2]
      exact hsame

/-- Room for five elements. -/
def crampedSettings : Settings := { maxSegments := 1, segmentCapacity := 5 }

/-- Two nodes and an arc between them, and room for two more elements. -/
def crampedStore : Store :=
  (Action.runAll [.addNode .constNorole .lowest, .addNode .constNode .lowest,
    .connect .constPermPosArc ⟨1, 1⟩ ⟨1, 2⟩ .lowest] (.ofSettings crampedSettings)).2

theorem reached_crampedStore : ∃ made, Reached (· = crampedSettings) made crampedStore := by
  refine ⟨_, (@Reached.fresh (· = crampedSettings) _ rfl).runAll ?_⟩
  simp [Action.Admissible, Access.inUse_lowest]

/-- There is room for the link and the arc of a name but not for the mark, or for a new element and
its link but not for the arc. -/
theorem Reached.failed_naming_leaves_graph_crampedStore :
    (∃ made, Reached (· = crampedSettings) made crampedStore) ∧
    ((Naming.assign ⟨.lowest⟩ ⟨1, 1⟩ ⟨1, 2⟩ "x").on crampedStore).1 = .error (.fullMemory 1) ∧
    crampedStore.SameGraph ((Naming.assign ⟨.lowest⟩ ⟨1, 1⟩ ⟨1, 2⟩ "x").on crampedStore).2 ∧
    ((Naming.resolve ⟨.lowest⟩ ⟨1, 1⟩ "x" .constNode).on crampedStore).1
      = .error (.fullMemory 1) ∧
    crampedStore.SameGraph
      ((Naming.resolve ⟨.lowest⟩ ⟨1, 1⟩ "x" .constNode).on crampedStore).2 := by
  obtain ⟨made, h⟩ := reached_crampedStore
  have hassign : ((Naming.assign ⟨.lowest⟩ ⟨1, 1⟩ ⟨1, 2⟩ "x").on crampedStore).1
      = .error (.fullMemory 1) := by
    decide +kernel
  have hresolve : ((Naming.resolve ⟨.lowest⟩ ⟨1, 1⟩ "x" .constNode).on crampedStore).1
      = .error (.fullMemory 1) := by
    decide +kernel
  obtain ⟨hsame, hsame'⟩ := h.failed_naming_leaves_graph (c := ⟨.lowest⟩) Access.inUse_lowest
    ⟨1, 1⟩ ⟨1, 2⟩ "x" .constNode
  exact ⟨⟨made, h⟩, hassign, hsame (.fullMemory 1) _ (by rw [← hassign]), hresolve,
    hsame' (.fullMemory 1) _ (by rw [← hresolve])⟩

/-! ## What is found then -/

/-- The session finds the element `a` under the name. -/
def Store.Finds (s : Store) (c : Session) (relation : Address) (name : String) (a : Address) :
    Prop :=
  Naming.isValid name = true ∧
    (s.named? c relation (Utf8.encode name)).map (·.element) = some a

theorem Store.Finds.noteScans (h : s.Finds c relation name a) (k : Scans) :
    (s.noteScans k).Finds c relation name a := by
  rw [Finds, named?_noteScans]
  exact h

/-- A name under which an element is found is resolved to it, and nothing is made. -/
theorem Reached.resolve_of_finds (h : Reached allowed made s) (hr : relation ≠ .empty)
    (hfinds : s.Finds c relation name a) (type : ElementType) :
    ∃ k, (Naming.resolve c relation name type).on s = (.ok a, s.noteScans k) := by
  obtain ⟨hvalid, hnamed⟩ := hfinds
  obtain ⟨k, hfind⟩ := h.atRest.on_find? (c := c) hr hvalid
  refine ⟨k, ?_⟩
  rw [Naming.resolve, Naming.elementNamed?, Step.on_bind, Step.on_bind, hfind]
  dsimp only [Step.on_pure]
  rw [hnamed]
  rfl

/-- The element alone is not found under any name. -/
theorem Reached.named?_alone {d : Session} {t : Address} {bytes' : Bytes}
    (h : Reached allowed made s) (h₁ : Reached allowed (a :: made) s₁) (hx₁ : s.Extends s₁ [a])
    (hcontent : s₁.contents.get? a = none) :
    s₁.named? d t bytes' = s.named? d t bytes' := by
  refine hx₁.named?_eq h.atRest h₁.atRest h.obtained.indexed h₁.obtained.indexed ?_
  simp [hcontent]

namespace Naming.Makes

theorem new (h : Makes allowed made c relation bytes s s' n) :
    s.Extends s' [n.mark, n.arc, n.link, n.element] := by
  obtain ⟨s₁, e, -, hx₁, -, -, -, hn⟩ := h.steps
  exact hx₁.trans hn.new

/-- Every name of the store is the one that was made or an old one. -/
theorem names_cases {m : Naming} {bytes' : Bytes} (h : Reached allowed made s)
    (hmakes : Makes allowed made c relation bytes s s' n) (hm : s'.Names bytes' m) :
    (s.Names bytes' m ∧ ∀ a ∈ m.toList, s'.arena.bare? a = s.arena.bare? a) ∨
      m = n ∧ bytes' = bytes := by
  obtain ⟨s₁, e, h₁, hx₁, -, -, -, hn⟩ := hmakes.steps
  rcases hn.names_cases h₁.atRest hmakes.reached.atRest hm with ⟨hold, hbare⟩ | hnew
  · obtain ⟨hold', hbare'⟩ :=
      Store.AddsNoName.of_extends h.atRest h₁.atRest hx₁ (by simp) bytes' m hold
    exact .inl ⟨hold', fun a ha => (hbare a ha).trans (hbare' a ha)⟩
  · exact .inr hnew

/-- The session finds what it made, if it may read the relation node. -/
theorem finds (h : Reached allowed made s) (hread : c.mayRead s relation = true)
    (hmakes : Makes allowed made c relation (Utf8.encode name) s s' n)
    (hname : isValid name = true) (hnone : s.named? c relation (Utf8.encode name) = none) :
    s'.Finds c relation name n.element := by
  obtain ⟨s₁, e, h₁, hx₁, hbare, haccess, hcontent, hn⟩ := hmakes.steps
  have hrelation := hmakes.relation
  subst hrelation
  have hread₁ : c.mayRead s₁ n.relation = true := by
    rw [hx₁.mayRead (hx₁.notMem_of_isSome (Store.isSome_of_mayRead hread))]
    exact hread
  rw [← h.named?_alone h₁ hx₁ hcontent] at hnone
  refine ⟨hname, ?_⟩
  rw [hn.named?_eq_some h₁ hmakes.reached (Store.mayRead_of_bare hbare haccess) hread₁ hnone]
  rfl

/-- Other names are found as before. -/
theorem finds_other {other : String} (h : Reached allowed made s)
    (hmakes : Makes allowed made c relation (Utf8.encode name) s s' n)
    (hnone : s.named? c relation (Utf8.encode name) = none)
    (hfinds : s.Finds c relation other a) : s'.Finds c relation other a := by
  obtain ⟨hvalid, hnamed⟩ := hfinds
  obtain ⟨s₁, e, h₁, hx₁, -, -, hcontent, hn⟩ := hmakes.steps
  have hbytes : Utf8.encode other ≠ Utf8.encode name := by
    intro heq
    rw [heq, hnone] at hnamed
    cases hnamed
  refine ⟨hvalid, ?_⟩
  rw [hn.named?_other h₁ hmakes.reached hbytes, h.named?_alone h₁ hx₁ hcontent]
  exact hnamed

end Naming.Makes

/-- What a session that may read the relation node can do next, once it has resolved a name. -/
structure Naming.Settled (allowed : Settings → Prop) (c : Session) (relation : Address)
    (s s' : Store) : Prop where
  reached : ∃ made', Reached allowed made' s'
  mayRead : c.mayRead s' relation = true
  finds : ∀ name a, s.Finds c relation name a → s'.Finds c relation name a

theorem Naming.Settled.trans {s'' : Store} (h : Settled allowed c relation s s')
    (h' : Settled allowed c relation s' s'') : Settled allowed c relation s s'' :=
  ⟨h'.reached, h'.mayRead, fun name a ha => h'.finds name a (h.finds name a ha)⟩

/-- A name that is resolved is found under that element from then on, and whatever was found under
other names still is. -/
theorem Reached.settled_of_resolve (h : Reached allowed made s) (hc : c.levels.InUse)
    (hread : c.mayRead s relation = true)
    (hrun : (Naming.resolve c relation name type).on s = (.ok a, s')) :
    Naming.Settled allowed c relation s s' ∧ s'.Finds c relation name a := by
  have hcases := h.resolve_cases hc relation name type
  rw [hrun] at hcases
  cases hcases with
  | found k hname hn =>
    refine ⟨⟨⟨made, h.noteScans k⟩, hread, fun _ _ hfinds => hfinds.noteScans k⟩, hname, ?_⟩
    rw [Store.named?_noteScans, hn]
    rfl
  | made hname hnone hn =>
    refine ⟨⟨⟨_, hn.reached⟩, ?_, fun _ _ => hn.finds_other h hnone⟩, hn.finds h hread hname hnone⟩
    rw [hn.new.mayRead (hn.new.notMem_of_isSome (Store.isSome_of_mayRead hread))]
    exact hread
  | failed hfails =>
    obtain ⟨f, s'', made', hfail, -⟩ := hfails
    cases (Prod.mk.inj hfail).1

end SemanticNet
