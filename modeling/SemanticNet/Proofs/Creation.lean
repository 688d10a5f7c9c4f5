import SemanticNet.Proofs.Lockstep
import SemanticNet.Proofs.Sound

/-!
# Creation

Making a node, a link or a connector adds one element to a sound store, in front of the rings of its
places, or it is refused and changes nothing but the metrics (`Creates`).
-/

namespace SemanticNet.Store

variable {s s' : Store} {a c x y : Address} {e : Element} {made : List Address}
  {type : ElementType} {access : Access}

/-- Nothing but the metrics may be different in `s'`. -/
structure Agrees (s s' : Store) : Prop where
  arena : s'.arena = s.arena
  contents : s'.contents = s.contents
  census : s'.census = s.census

theorem Agrees.refl (s : Store) : s.Agrees s := ⟨rfl, rfl, rfl⟩

theorem Sound.agrees (h : s.Sound made) (ha : s.Agrees s') : s'.Sound made where
  tidy := ha.arena ▸ h.tidy
  wired := ha.arena ▸ h.wired
  proper := ha.arena ▸ h.proper
  contents := by
    rw [ha.arena, ha.contents]
    exact h.contents
  census := by
    rw [ha.arena, ha.census]
    exact h.census

theorem Calm.agrees (h : s.Calm) (ha : s.Agrees s') : s'.Calm := by
  intro a e he
  rw [ha.arena] at he
  exact h a e he

/-- In `s'` there is the new element `c`, and nothing else is new. -/
structure Created (s s' : Store) (c : Address) (e : Element) : Prop where
  tidy : s'.arena.Tidy
  grown : s.arena.Grown s'.arena c e
  ends : ∀ p ∈ e.places, (s.arena.find? p.1).isSome
  proper : e.Proper
  calm : e.erasing = false
  contents : s'.contents = s.contents
  census : s'.census = s.census.add e.type.sort

/-- A step makes one element, or it is refused. -/
def Creates (x : Step Store Address) (s : Store) : Prop :=
  (∃ c e s', x.on s = (.ok c, s') ∧ s.Created s' c e) ∨
    ∃ f s', x.on s = (.error f, s') ∧ s.Agrees s'

theorem Sound.created (h : s.Sound made) (hc : s.Created s' c e) : s'.Sound (c :: made) :=
  h.grown hc.tidy hc.grown hc.ends hc.proper hc.contents hc.census

theorem Calm.created (h : s.Calm) (hc : s.Created s' c e) : s'.Calm := by
  intro b e' he'
  by_cases hbc : b = c
  · subst hbc
    obtain ⟨e'', he'', hbare⟩ := hc.grown.find?_new
    rw [he'] at he''
    cases he''
    exact (congrArg (·.erasing) hbare).trans hc.calm
  · have hb : s'.arena.bare? b = s.arena.bare? b := by rw [hc.grown.bare, if_neg hbc]
    obtain ⟨e'', he'', hbare⟩ := Arena.find?_of_bare hb he'
    exact (congrArg (·.erasing) hbare).trans (h b e'' he'')

theorem creates_throw (f : Failure) : Creates (throw f) s :=
  .inr ⟨f, s, rfl, .refl s⟩

theorem creates_throw_bind {α : Type} (f : Failure) (x : α → Step Store Address) :
    Creates (throw f >>= x) s :=
  .inr ⟨f, s, by rw [Step.on_bind, Step.on_throw], .refl s⟩

theorem creates_ask {f : Store → Except Failure Unit} {x : Unit → Step Store Address}
    (h : ∀ u, f s = .ok u → Creates (x u) s) : Creates (Step.ask f >>= x) s := by
  cases hf : f s with
  | ok u =>
    rw [Creates, Step.on_bind, Step.on_ask, hf]
    exact h u hf
  | error e =>
    refine .inr ⟨e, s, ?_, .refl s⟩
    rw [Step.on_bind, Step.on_ask, hf]

/-! ## Storing an element -/

/-- An insertion does what allocating does to the arena, and counts. -/
theorem Sound.insert (h : s.Sound made) (e : Element) :
    (∃ c s', (insert e).on s = (.ok c, s') ∧
      (Arena.allocate e).on s.arena = (.ok c, s'.arena) ∧ Arena.Stored s.arena s'.arena c e ∧
      s'.contents = s.contents ∧ s'.census = s.census.add e.type.sort) ∨
    ∃ s', (insert e).on s = (.error (.fullMemory s.arena.maxSegments), s') ∧
      (Arena.allocate e).on s.arena = (.error (.fullMemory s.arena.maxSegments), s.arena) ∧
      s.Agrees s' := by
  rcases h.tidy.allocate e with ⟨c, t, hrun, hstored⟩ | hrun
  · refine .inl ⟨c, ({ s with arena := t }.count .segmentAdded
      (t.segments.size - s.arena.segments.size)).noteCreated e.type.sort, ?_, hrun, hstored, rfl,
      rfl⟩
    show Store.insert e s = _
    simp only [Machinery.insert, onArena_of_on hrun]
  · refine .inr ⟨s.count .refusedFull 1, ?_, hrun, ⟨rfl, rfl, rfl⟩⟩
    show Store.insert e s = _
    simp only [Machinery.insert, onArena_of_on hrun]

/-- An element with empty rings and live ends is stored and attached, if there is a slot. -/
theorem Sound.make (h : s.Sound made) (hempty : ∀ d, e.ring d = {})
    (hends : ∀ p ∈ e.places, (s.arena.find? p.1).isSome) :
    (∃ c t s', (make e).on s = (.ok c, s') ∧ (Arena.allocate e).on s.arena = (.ok c, t) ∧
      Arena.Stored s.arena t c e ∧ (attachAll c e.places).on t = (.ok (), s'.arena) ∧
      s.arena.Grown s'.arena c e ∧ s'.contents = s.contents ∧
      s'.census = s.census.add e.type.sort) ∨
    ∃ s', (make e).on s = (.error (.fullMemory s.arena.maxSegments), s') ∧
      (Arena.allocate e).on s.arena = (.error (.fullMemory s.arena.maxSegments), s.arena) ∧
      s.Agrees s' := by
  rcases h.insert e with
    ⟨c, s₁, hrun₁, hallocate, hstored, hcontents, hcensus⟩ | ⟨s₁, hrun₁, hallocate, hagrees⟩
  · obtain ⟨t₂, hrun₂, hgrown⟩ := Arena.grown_of_stored hstored hempty fun p hp => by
      obtain ⟨cs, hcs, -⟩ := h.wired.ring p.1 p.2 (hends p hp)
      exact ⟨cs, hcs⟩
    refine .inl ⟨c, s₁.arena, { s₁ with arena := t₂ }, ?_, hallocate, hstored, hrun₂, hgrown,
      hcontents, hcensus⟩
    simp only [Machinery.make, Step.on_bind, hrun₁, on_onArena, hrun₂, Step.on_pure]
  · refine .inr ⟨s₁, ?_, hallocate, hagrees⟩
    rw [Store.make, Machinery.make, Step.on_bind, hrun₁]

/-- A proper element with empty rings and live ends is made, or there is no slot. -/
theorem Sound.creates (h : s.Sound made) (hempty : ∀ d, e.ring d = {})
    (hends : ∀ p ∈ e.places, (s.arena.find? p.1).isSome) (he : e.Proper)
    (hcalm : e.erasing = false) : Creates (Store.make e) s := by
  rcases h.make hempty hends with
    ⟨c, t, s', hrun, -, hstored, hattach, hgrown, hcontents, hcensus⟩ | ⟨s', hrun, -, hagrees⟩
  · have htidy : s'.arena.Tidy := by
      have hkeeps : Step.Keeps Arena.Tidy (attachAll c e.places) :=
        Step.respects_iff_keeps.1
          (Arena.parallel_of_update fun t a f ht => ht.update a f).attachAll
      have := hkeeps _ hstored.tidy
      rwa [hattach] at this
    exact .inl ⟨c, e, s', hrun, htidy, hgrown, hends, he, hcalm, hcontents, hcensus⟩
  · exact .inr ⟨_, s', hrun, hagrees⟩

/-! ## The three sorts of elements -/

/-- An element that is no connector has no rings to be attached to. -/
theorem make_alone {type : ElementType} {access : Access} :
    make { type, access } = insert { type, access } := by
  have hplaces : ∀ c, onArena (attachAll c (Element.places { type, access })) = pure () :=
    fun c => rfl
  simp only [Machinery.make, hplaces, pure_bind, bind_pure]

theorem Sound.creates_alone (h : s.Sound made) (hcon : type.isConnector = false)
    (hkind : type.kind.isUnknown = false) (haccess : access.InUse) :
    Creates (Store.insert { type, access }) s := by
  rw [← make_alone]
  exact h.creates (e := { type, access }) (fun d => by cases d <;> rfl)
    (fun p hp => by simp [Element.places] at hp) ⟨hcon.symm, hkind, rfl, haccess⟩ rfl

/-- A type that is no connector's is that of a node once marks of one are added. -/
theorem Sound.creates_marked {mark : ElementType} (h : s.Sound made)
    (hcon : type.isConnector = false) (hconnector : mark &&& .connectorBits = .unknown)
    (hnode : mark &&& .node ≠ .unknown) (haccess : access.InUse) :
    Creates (Store.insert { type := type ||| mark, access }) s := by
  refine h.creates_alone ?_ ?_ haccess
  · rw [ElementType.isConnector, ElementType.hasAny_or hconnector]
    exact hcon
  · exact ElementType.kind_ne_of_hasAny (m := .node) (by decide)
      (ElementType.hasAny_or_self hnode)

theorem Sound.creates_addNode (h : s.Sound made) (type : ElementType) (haccess : access.InUse) :
    Creates (addNode type access) s := by
  rw [Store.addNode, Machinery.addNode]
  split
  · exact creates_throw _
  next hno =>
    have hcon : type.isConnector = false := by
      cases hc : type.isConnector <;> simp_all
    exact h.creates_marked hcon (by decide) (by decide) haccess

theorem Sound.creates_addLink (h : s.Sound made) (type : ElementType) (haccess : access.InUse) :
    Creates (addLink type access) s := by
  rw [Store.addLink, Machinery.addLink]
  split
  · exact creates_throw _
  next hno =>
    have hcon : type.isConnector = false := by
      cases hc : type.isConnector <;> simp_all
    exact h.creates_marked hcon (by decide) (by decide) haccess

theorem requireStaying_ok (h : s.requireStaying a = .ok ()) :
    ∃ e, s.arena.find? a = some e ∧ e.erasing = false := by
  cases he : s.arena.find? a with
  | none => simp [requireStaying, Arena.fetch, he, bind, Except.bind] at h
  | some e =>
    refine ⟨e, rfl, ?_⟩
    cases hm : e.erasing with
    | false => rfl
    | true =>
      simp [requireStaying, Arena.fetch, he, hm, bind, Except.bind, throw, throwThe,
        MonadExceptOf.throw] at h

theorem Sound.creates_connect (h : s.Sound made) (type : ElementType) (source target : Address)
    (haccess : access.InUse) : Creates (connect type source target access) s := by
  rw [Store.connect, Machinery.connect]
  dsimp only
  split
  case isFalse => exact creates_throw_bind _ _
  next hconnector =>
    have hcon := ElementType.isConnector_of_isConnectorKind hconnector
    have hkind : type.kind.isUnknown = false :=
      ElementType.kind_ne_of_hasAny (m := .connectorBits) rfl hcon
    split
    case isFalse => exact creates_throw_bind _ _
    split
    · exact creates_throw_bind _ _
    refine creates_ask fun _ hsource => creates_ask fun _ htarget => ?_
    obtain ⟨e₁, he₁, -⟩ := requireStaying_ok hsource
    obtain ⟨e₂, he₂, -⟩ := requireStaying_ok htarget
    refine h.creates (e := { type, access, connection := some { source, target } })
      (fun d => by cases d <;> rfl) (fun p hp => ?_) ⟨hcon.symm, hkind, rfl, haccess⟩ rfl
    obtain ⟨x, d⟩ := p
    rcases (Element.mem_places_iff rfl).1 ⟨d, hp⟩ with rfl | rfl
    · exact Option.isSome_of_eq_some he₁
    · exact Option.isSome_of_eq_some he₂

end SemanticNet.Store
