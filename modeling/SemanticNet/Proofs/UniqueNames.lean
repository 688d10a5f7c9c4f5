import SemanticNet.Proofs.Starting

/-!
# Unique names

A session that may read all namings gives nothing a name that is in use (`Store.NamesUnique.adds`).
So in a memory that is started empty names stay unique, as long as those who name elements see what
the sessions before them have made (`Memory.names_unique`). A session that sees less finds a name
free that is in use, and may give it to another element (`Memory.names_not_unique`).
-/

namespace SemanticNet

open Step (Keeps)

variable {allowed : Settings → Prop} {made : List Address} {s s' : Store} {c : Session}
  {relation : Address} {bytes : Bytes} {n m : Naming} {level : UInt8}

/-- No two namings that the relation node marks give the same name. -/
def Store.NamesUnique (s : Store) (relation : Address) : Prop :=
  ∀ bytes n m, s.Names bytes n → s.Names bytes m → n.relation = relation →
    m.relation = relation → n = m

/-- Whatever is named in `s'` was named in `s`, or is the naming `n`. -/
def Store.AddsName (s s' : Store) (bytes : Bytes) (n : Naming) : Prop :=
  ∀ bytes' m, s'.Names bytes' m → s.Names bytes' m ∨ m = n ∧ bytes' = bytes

namespace Store.NamesUnique

theorem addsNoName (h : s.NamesUnique relation) (hs : s.AddsNoName s') :
    s'.NamesUnique relation := by
  intro bytes n m hn hm
  exact h bytes n m (hs bytes n hn).1 (hs bytes m hm).1

/-- Names stay unique when a session that may read all namings gives one that it did not find. -/
theorem adds (h : s.NamesUnique relation) (hs : Reached allowed made s)
    (hshows : ∀ bytes n, s.Names bytes n → s.Shows c.levels n)
    (hnone : s.named? c relation bytes = none) (hadds : s.AddsName s' bytes n) :
    s'.NamesUnique relation := by
  -- the name was not in use, for the session would have found it
  have hfree : ∀ m, s.Names bytes m → m.relation ≠ relation := by
    intro m hm hrelation
    have hsome := hs.atRest.isSome_named? hs.obtained.indexed hm (hshows bytes m hm)
    rw [hrelation, hnone] at hsome
    cases hsome
  intro bytes' m m' hm hm' hr hr'
  rcases hadds bytes' m hm with hold | ⟨hm, rfl⟩
  · rcases hadds bytes' m' hm' with hold' | ⟨-, rfl⟩
    · exact h bytes' m m' hold hold' hr hr'
    · exact absurd hr (hfree m hold)
  · rcases hadds bytes' m' hm' with hold' | ⟨hm', -⟩
    · exact absurd hr' (hfree m' hold')
    · exact hm.trans hm'.symm

end Store.NamesUnique

/-- Sessions that read at the level of all elements may read all namings. -/
theorem Store.ReadableAt.shows (h : s.ReadableAt allowed c.levels.read) (hn : s.Names bytes n) :
    s.Shows c.levels n := by
  intro a ha
  obtain ⟨made, hs⟩ := h.reached
  obtain ⟨e, he⟩ := Option.isSome_iff_exists.1 (hs.atRest.isSome_find?_of_names hn a ha)
  have hmay : c.levels.mayRead e.access = true := decide_eq_true (h.access a e he)
  rw [Arena.readable?, he]
  show (if c.levels.mayRead e.access then some e.type else none).isSome = true
  rw [if_pos hmay]
  rfl

/-! ## Calls -/

/-- A call that names an element, or one that makes an element without a name. -/
inductive Naming.Call where
  | addNode (type : ElementType)
  | addLink (type : ElementType)
  | assign (a : Address) (name : String)
  | resolve (name : String) (type : ElementType)
deriving DecidableEq, Inhabited, Repr

namespace Naming

/-- Whether a call is about a name. -/
def Call.isNaming : Call → Bool
  | addNode _ | addLink _ => false
  | assign _ _ | resolve _ _ => true

/-- The call as a session makes it, answered with the element that it is about. -/
def Call.run (c : Session) (relation : Address) : Call → Step Store Address
  | addNode type => c.addNode type
  | addLink type => c.addLink type
  | assign a name => (·.element) <$> Naming.assign c relation a name
  | resolve name type => Naming.resolve c relation name type

/-- The store that calls leave, each one made by a session of its own. -/
def runAll (relation : Address) (calls : List (Session × Call)) (s : Store) : Store :=
  calls.foldl (fun s p => ((p.2.run p.1 relation).on s).2) s

/-- What a call does about names: there is no new one, or one that the session did not find. -/
structure Called (allowed : Settings → Prop) (c : Session) (relation : Address) (k : Call)
    (s s' : Store) : Prop where
  reached : ∃ made', Reached allowed made' s'
  names : s.AddsNoName s' ∨ k.isNaming = true ∧ ∃ bytes n,
    s.named? c relation bytes = none ∧ s.AddsName s' bytes n

theorem Fails.called {α : Type} {k : Call} {p : Except Failure α × Store} (h : Fails allowed s p) :
    Called allowed c relation k s p.2 := by
  obtain ⟨f, s', made', rfl, h', hsame⟩ := h
  exact ⟨⟨made', h'⟩, .inl (.of_sameGraph hsame)⟩

end Naming

/-- To make an element names nothing. -/
theorem Reached.called_adds {k : Naming.Call} {e : Element} {x : Step Store Address}
    (h : Reached allowed made s) (hc : c.levels.InUse) (hx : c.Makes x e)
    (hconnection : e.connection = none) : Naming.Called allowed c relation k s (x.on s).2 := by
  rcases h.adds hc hx with ⟨a, s', hrun, h', hcreated⟩ | ⟨f, s', hrun, h', hagrees⟩
  · have hnew : s.Extends s' [a] := (Store.Extends.refl s).createdAlone hcreated hconnection
    rw [hrun]
    exact ⟨⟨_, h'⟩, .inl (.of_extends h.atRest h'.atRest hnew (by simp))⟩
  · rw [hrun]
    exact ⟨⟨_, h'⟩, .inl (.of_sameGraph (.of_agrees hagrees))⟩

theorem Reached.called (h : Reached allowed made s) (hc : c.levels.InUse) (relation : Address)
    (k : Naming.Call) : Naming.Called allowed c relation k s ((k.run c relation).on s).2 := by
  cases k with
  | addNode type => exact h.called_adds hc (c.makes_addNode type) rfl
  | addLink type => exact h.called_adds hc (c.makes_addLink type) rfl
  | assign a name =>
    rw [Naming.Call.run, Step.on_map]
    rcases h.assign_cases hc relation a name with ⟨-, hnone, n, s', hrun, -, -, h', hn⟩ | hfails
    · rw [hrun]
      refine ⟨⟨_, h'⟩, .inr ⟨rfl, Utf8.encode name, n, hnone, fun bytes' m hm => ?_⟩⟩
      exact (hn.names_cases h.atRest h'.atRest hm).imp_left And.left
    · exact hfails.called
  | resolve name type =>
    have hcases := h.resolve_cases hc relation name type
    rw [Naming.Call.run]
    generalize (Naming.resolve c relation name type).on s = p at hcases
    cases hcases with
    | found j hname hn =>
      exact ⟨⟨made, h.noteScans j⟩, .inl (.of_sameGraph (.of_agrees (s.agrees_noteScans j)))⟩
    | @made n s' hname hnone hn =>
      refine ⟨⟨_, hn.reached⟩, .inr ⟨rfl, Utf8.encode name, n, hnone, fun bytes' m hm => ?_⟩⟩
      exact (hn.names_cases h hm).imp_left And.left
    | failed hfails => exact hfails.called

namespace Naming

/-- Calls of sessions keep all elements readable. -/
theorem keeps_run (hc : c.levels.InUse) (hl : c.levels.read ≤ level) (relation : Address)
    (k : Call) : Keeps (Store.ReadableAt allowed level) (k.run c relation) := by
  cases k with
  | addNode type => exact (c.makes_addNode type).keeps hc hl
  | addLink type => exact (c.makes_addLink type).keeps hc hl
  | assign a name => exact (keeps_assign hc hl relation a name).map _
  | resolve name type => exact keeps_resolve hc hl relation name type

/-- One call after another, names stay unique as long as those who name elements may read all that
was made before. -/
theorem namesUnique_runAll {calls : List (Session × Call)}
    (h : Reached allowed made s) (hunique : s.NamesUnique relation)
    (hc : ∀ p ∈ calls, p.1.levels.InUse)
    (hsees : ∀ p ∈ calls, p.2.isNaming = true → s.ReadableAt allowed p.1.levels.read)
    (hgrows : calls.Pairwise fun p q => q.2.isNaming = true → p.1.levels.read ≤ q.1.levels.read) :
    (runAll relation calls s).NamesUnique relation := by
  induction calls generalizing made s with
  | nil => exact hunique
  | cons p calls ih =>
    obtain ⟨c, k⟩ := p
    obtain ⟨hfirst, hc⟩ := List.forall_mem_cons.1 hc
    obtain ⟨hsee, hsees⟩ := List.forall_mem_cons.1 hsees
    obtain ⟨hbelow, hgrows⟩ := List.pairwise_cons.1 hgrows
    obtain ⟨⟨made', h'⟩, hnames⟩ := h.called hfirst relation k
    refine ih h' ?_ hc (fun q hq hnaming => ?_) hgrows
    · rcases hnames with hnone | ⟨hnaming, bytes, n, hfree, hadds⟩
      · exact hunique.addsNoName hnone
      · exact hunique.adds h (fun _ _ => (hsee hnaming).shows) hfree hadds
    · exact keeps_run hfirst (hbelow q hq hnaming) relation k s (hsees q hq hnaming)

/-- Whatever sessions call, the store stays one that is reached. -/
theorem reached_runAll {calls : List (Session × Call)} (h : Reached allowed made s)
    (hc : ∀ p ∈ calls, p.1.levels.InUse) (relation : Address) :
    ∃ made', Reached allowed made' (runAll relation calls s) := by
  induction calls generalizing made s with
  | nil => exact ⟨made, h⟩
  | cons p calls ih =>
    obtain ⟨hfirst, hc⟩ := List.forall_mem_cons.1 hc
    obtain ⟨⟨made', h'⟩, -⟩ := h.called hfirst relation p.2
    exact ih h' hc

end Naming

/-! ## Started memories -/

namespace Memory

/-- In a memory that is started empty, whatever elements sessions make and name, no name is given
twice, provided that whoever names elements has at least the read level of all sessions before. -/
theorem names_unique {files : FileTree} {settings : Settings} {m : Memory}
    (hempty : openStore files settings = .ok (.ofSettings settings))
    (hstart : start files settings = .ok m) (calls : List (Session × Naming.Call))
    (hc : ∀ p ∈ calls, p.1.levels.InUse)
    (hgrows : calls.Pairwise fun p q => q.2.isNaming = true → p.1.levels.read ≤ q.1.levels.read) :
    (Naming.runAll m.relation calls m.store).NamesUnique m.relation := by
  obtain ⟨hreadable, -, n, honly⟩ := started_empty hempty hstart
  obtain ⟨made, h⟩ := hreadable.reached
  have hunique : m.store.NamesUnique m.relation := by
    intro bytes k k' hk hk' _ _
    exact (honly bytes k hk).1.trans (honly bytes k' hk').1.symm
  exact Naming.namesUnique_runAll h hunique hc
    (fun p _ _ => hreadable.mono UInt8.zero_le) hgrows

/-- A node gets a name, and two others are named by a session that sees more. One of their names is
in use. -/
def sampleCalls : List (Session × Naming.Call) :=
  [(⟨.lowest⟩, .addNode .constNode), (⟨.lowest⟩, .assign ⟨1, 5⟩ "x"),
    (⟨.highest⟩, .resolve "y" .constNode), (⟨.highest⟩, .assign ⟨1, 9⟩ "x")]

theorem names_unique_sampleCalls :
    start {} .small = .ok startedMemory ∧
      (Naming.runAll startedMemory.relation sampleCalls startedMemory.store).NamesUnique
        startedMemory.relation ∧
      ∀ name ∈ ["x", "y"],
        ((Naming.runAll startedMemory.relation sampleCalls startedMemory.store).named?
          ⟨.highest⟩ startedMemory.relation (Utf8.encode name)).isSome :=
  ⟨start_startedMemory,
    names_unique rfl start_startedMemory sampleCalls
      (by simp [sampleCalls, Access.inUse_lowest, Access.inUse_highest]) (by decide),
    by decide +kernel⟩

/-- A node of the highest levels gets a name, and then another node gets it, from a session that may
not read the first one. -/
def unseenCalls : List (Session × Naming.Call) :=
  [(⟨.highest⟩, .addNode .constNode), (⟨.lowest⟩, .addNode .constNode),
    (⟨.highest⟩, .assign ⟨1, 5⟩ "x"), (⟨.lowest⟩, .assign ⟨1, 6⟩ "x")]

/-- Two elements get the same name when the second session does not see the first one. -/
theorem names_not_unique :
    ¬∀ calls : List (Session × Naming.Call), (∀ p ∈ calls, p.1.levels.InUse) →
      ∀ bytes n m,
        (Naming.runAll startedMemory.relation calls startedMemory.store).Names bytes n →
        (Naming.runAll startedMemory.relation calls startedMemory.store).Names bytes m →
        n.relation = startedMemory.relation → m.relation = startedMemory.relation →
        n.element = m.element := by
  intro hall
  have hc : ∀ p ∈ unseenCalls, p.1.levels.InUse := by
    simp [unseenCalls, Access.inUse_lowest, Access.inUse_highest]
  obtain ⟨made, h⟩ := started_startedMemory.1.reached
  obtain ⟨made', h'⟩ := Naming.reached_runAll h hc startedMemory.relation
  have hfound : ∀ {c : Session} {n : Naming},
      (Naming.runAll startedMemory.relation unseenCalls startedMemory.store).named? c
        startedMemory.relation (Utf8.encode "x") = some n →
      (Naming.runAll startedMemory.relation unseenCalls startedMemory.store).Names
        (Utf8.encode "x") n ∧ n.relation = startedMemory.relation := by
    intro c n hn
    obtain ⟨hnames, hrelation, -⟩ := h'.atRest.names_of_named? h'.obtained.indexed hn
    exact ⟨hnames, hrelation⟩
  -- the first naming is found at the highest levels, the second one at the lowest
  obtain ⟨hfirst, hr⟩ := hfound (c := ⟨.highest⟩)
    (n := ⟨⟨1, 5⟩, ⟨1, 8⟩, ⟨1, 7⟩, ⟨1, 9⟩, ⟨1, 1⟩⟩) (by decide +kernel)
  obtain ⟨hsecond, hr'⟩ := hfound (c := ⟨.lowest⟩)
    (n := ⟨⟨1, 6⟩, ⟨1, 11⟩, ⟨1, 10⟩, ⟨1, 12⟩, ⟨1, 1⟩⟩) (by decide +kernel)
  have hsame := hall unseenCalls hc _ _ _ hfirst hsecond hr hr'
  exact absurd hsame (by decide)

end Memory

end SemanticNet
