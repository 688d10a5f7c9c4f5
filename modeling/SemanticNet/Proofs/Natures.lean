import SemanticNet.Proofs.Becoming
import SemanticNet.Proofs.Chains

/-!
# The natures of elements

What an element is, apart from its rings, marks and levels, is its nature: its type and its ends.
Splicing and marking leave natures as they are (`Arena.aligned_shows`), changes and commits narrow
types at most (`Action.amends`), and creations add an element (`Action.creation_cases`). So whatever
is done but erasing, in whatever regular store, the elements stay, with their types as they were or
narrowed (`Action.persists`).
-/

namespace SemanticNet

/-- The type of an element and, if it is a connector, its ends. -/
structure Nature where
  type : ElementType
  ends : Option (Address × Address)

def Element.nature (e : Element) : Nature := ⟨e.type, e.ends?⟩

/-- The ends stay as they are, and the type does or is narrowed. -/
structure Nature.Becomes (n m : Nature) : Prop where
  type : n.type.Becomes m.type
  ends : m.ends = n.ends

theorem Nature.Becomes.refl (n : Nature) : n.Becomes n := ⟨.refl _, rfl⟩

theorem Nature.Becomes.trans {n m l : Nature} (h : n.Becomes m) (h' : m.Becomes l) :
    n.Becomes l := ⟨h.type.trans h'.type, h'.ends.trans h.ends⟩

/-- The kind is known, and a connector has ends, and nothing else has. -/
structure Nature.Clear (n : Nature) : Prop where
  kind : n.type.kind.isUnknown = false
  ends : n.ends.isSome = n.type.isConnector

/-- A type of known kind keeps its kind, so what was clear stays clear. -/
theorem Nature.Clear.becomes {n m : Nature} (h : n.Clear) (hm : n.Becomes m) : m.Clear := by
  have hmould := hm.type.mould h.kind
  refine ⟨?_, ?_⟩
  · rw [ElementType.kind_of_mould hmould]
    exact h.kind
  · rw [hm.ends, h.ends, ElementType.isConnector_of_mould hmould]

theorem Element.isSome_ends? {e : Element} : e.ends?.isSome = e.connection.isSome :=
  Option.isSome_map

theorem Element.nature_bare {e : Element} : e.bare.nature = e.nature :=
  congrArg (Nature.mk e.type) ends?_bare

theorem Element.Blind.nature_eq {f : Element → Element} (h : Element.Blind f) (e : Element) :
    (f e).nature = e.nature := by
  rw [nature, nature, h.type_eq, h.ends]

namespace Arena

variable {t t' t'' : Arena} {a b : Address} {e : Element} {n m : Nature}

/-- The nature of the element at an address. -/
def nature? (t : Arena) (a : Address) : Option Nature := (t.find? a).map Element.nature

theorem nature?_eq_some_iff : t.nature? a = some n ↔ ∃ e, t.find? a = some e ∧ e.nature = n :=
  Option.map_eq_some_iff

theorem nature?_eq_none_iff : t.nature? a = none ↔ t.find? a = none := Option.map_eq_none_iff

theorem nature?_of_find? (h : t.find? a = some e) : t.nature? a = some e.nature :=
  nature?_eq_some_iff.2 ⟨e, h, rfl⟩

theorem nature?_of_bare (h : t'.bare? a = t.bare? a) : t'.nature? a = t.nature? a := by
  have hbare : ∀ t : Arena, t.nature? a = (t.bare? a).map Element.nature := by
    intro t
    rw [nature?, bare?, Option.map_map]
    exact congrArg (Option.map · (t.find? a)) (funext fun e => Element.nature_bare.symm)
  rw [hbare, hbare, h]

theorem kind?_eq_nature? : t.kind? a = (t.nature? a).map (·.type.sort) := by
  rw [kind?, nature?, Option.map_map]
  rfl

theorem nature?_update (f : Element → Element) :
    (t.update a f).nature? b
      = if a = b then (t.find? b).map fun e => (f e).nature else t.nature? b := by
  rw [nature?, find?_update]
  split
  · rw [Option.map_map]
    rfl
  · rfl

theorem size_update (t : Arena) (a : Address) (f : Element → Element) :
    (t.update a f).segments.size = t.segments.size := by
  rw [update]
  split
  · rfl
  · exact Array.size_modify

/-! ## Splicing and marking -/

/-- A regular arena of `k` segments whose elements are of the natures `ν`. -/
structure Shows (t : Arena) (k : Nat) (ν : Address → Option Nature) : Prop where
  regular : t.Regular
  size : t.segments.size = k
  nature? : ∀ a, t.nature? a = ν a

theorem aligned_shows (k : Nat) (ν : Address → Option Nature) :
    Aligned fun t t' => t' = t ∧ t.Shows k ν where
  outline? t t' a h := by rw [h.1]
  engaged t t' h := by rw [h.1]
  updateBlind t t' a f hf h := by
    obtain ⟨rfl, hregular, hsize, hnature⟩ := h
    refine ⟨rfl, hregular.update a fun e he => ?_, (size_update _ a f).trans hsize, fun b => ?_⟩
    · rw [hf.type_eq]
      exact he
    · rw [nature?_update, ← hnature b, Arena.nature?]
      simp only [hf.nature_eq]
      exact ite_self _

/-- What steps keep that respect all aligned arenas: the natures, and the number of segments. -/
theorem Regular.shows_of_aligned {α : Type} {x : Step Arena α} (h : t.Regular)
    (hx : ∀ {R : Arena → Arena → Prop}, Aligned R → Step.Respects R x) :
    (x.on t).2.Shows t.segments.size t.nature? :=
  (hx (aligned_shows t.segments.size t.nature?) t t ⟨rfl, h, rfl, fun _ => rfl⟩).2.2

/-- Freeing an element takes its nature away, and no other. -/
theorem Regular.free_nature? (h : t.Regular) (hn : t.nature? a = some n) :
    ∃ t', (Arena.free a).on t = (.ok (), t') ∧ t'.Regular ∧
      t'.segments.size = t.segments.size ∧
      ∀ b, t'.nature? b = if b = a then none else t.nature? b := by
  obtain ⟨e, he, -⟩ := nature?_eq_some_iff.1 hn
  obtain ⟨hrun, hfind⟩ := free_live he
  have hregular := h.free a
  rw [hrun] at hfind hregular
  refine ⟨_, hrun, hregular, Array.size_modify, fun b => ?_⟩
  rw [nature?, hfind]
  split <;> rfl

/-! ## What stays -/

/-- The elements of `t` are there in `t'`, with their types as they were or narrowed. -/
def Persists (t t' : Arena) : Prop :=
  ∀ a n, t.nature? a = some n → ∃ m, t'.nature? a = some m ∧ n.Becomes m

theorem Persists.refl (t : Arena) : t.Persists t := fun _ n h => ⟨n, h, .refl n⟩

theorem Persists.trans (h : t.Persists t') (h' : t'.Persists t'') : t.Persists t'' := by
  intro a n hn
  obtain ⟨m, hm, hnm⟩ := h a n hn
  obtain ⟨l, hl, hml⟩ := h' a m hm
  exact ⟨l, hl, hnm.trans hml⟩

theorem persists_of_nature? (h : ∀ a, t'.nature? a = t.nature? a) : t.Persists t' :=
  fun a n hn => ⟨n, (h a).trans hn, .refl n⟩

/-- A new element takes the place of no other. -/
theorem Placed.persists (h : t.Placed t' a e) : t.Persists t' := by
  intro b n hn
  have hba : b ≠ a := by
    rintro rfl
    rw [nature?, h.fresh] at hn
    cases hn
  exact ⟨n, by rw [nature?, h.find?, if_neg hba, ← hn, nature?], .refl n⟩

theorem Placed.nature? (h : t.Placed t' a e) (b : Address) :
    t'.nature? b = if b = a then some e.nature else t.nature? b := by
  rw [Arena.nature?, h.find?]
  split <;> rfl

end Arena

/-! ## Changes and commits -/

namespace Store

variable {s s' s'' : Store} {a : Address} {e : Element}

/-- In `s'` the same addresses are live as in `s`, the types are as they were or narrowed, and what
is counted is the same. -/
structure Amended (s s' : Store) : Prop where
  persists : s.arena.Persists s'.arena
  none : ∀ a, s.arena.nature? a = none → s'.arena.nature? a = none
  size : s'.arena.segments.size = s.arena.segments.size
  census : s'.census = s.census
  metrics : s'.metrics = s.metrics

theorem Amended.refl (s : Store) : s.Amended s := ⟨.refl _, fun _ h => h, rfl, rfl, rfl⟩

theorem Amended.trans (h : s.Amended s') (h' : s'.Amended s'') : s.Amended s'' :=
  ⟨h.persists.trans h'.persists, fun a ha => h'.none a (h.none a ha), h'.size.trans h.size,
    h'.census.trans h.census, h'.metrics.trans h.metrics⟩

/-- One element may be given a nature that the old one may become. -/
theorem Amended.update (h : s.Amended s') (he : s.arena.find? a = some e) {f : Element → Element}
    (hf : ∀ e', s'.arena.find? a = some e' → e.nature.Becomes e'.nature →
      e.nature.Becomes (f e').nature) :
    s.Amended { s' with arena := s'.arena.update a f } where
  persists b n hn := by
    obtain ⟨m, hm, hnm⟩ := h.persists b n hn
    obtain ⟨e', he', rfl⟩ := Arena.nature?_eq_some_iff.1 hm
    show ∃ m, (s'.arena.update a f).nature? b = some m ∧ n.Becomes m
    rw [Arena.nature?_update]
    split
    next hab =>
      subst hab
      obtain rfl : e.nature = n := Option.some.inj ((Arena.nature?_of_find? he).symm.trans hn)
      exact ⟨(f e').nature, by rw [he', Option.map_some], hf e' he' hnm⟩
    next => exact ⟨e'.nature, hm, hnm⟩
  none b hb := by
    have hnone := h.none b hb
    show (s'.arena.update a f).nature? b = Option.none
    rw [Arena.nature?_update]
    split
    · rw [Arena.nature?_eq_none_iff.1 hnone, Option.map_none]
    · exact hnone
  size := (Arena.size_update _ a f).trans h.size
  census := h.census
  metrics := h.metrics

theorem Amended.contents (h : s.Amended s') {c : Contents byteHash} :
    s.Amended { s' with contents := c } :=
  ⟨h.persists, h.none, h.size, h.census, h.metrics⟩

theorem Amended.find? (h : s.Amended s') {e' : Element} (he' : s'.arena.find? a = some e') :
    ∃ e, s.arena.find? a = some e ∧ e.nature.Becomes e'.nature := by
  cases he : s.arena.find? a with
  | none =>
    have hnone := h.none a (Arena.nature?_eq_none_iff.2 he)
    rw [Arena.nature?_of_find? he'] at hnone
    cases hnone
  | some e =>
    obtain ⟨m, hm, hbecomes⟩ := h.persists a e.nature (Arena.nature?_of_find? he)
    obtain rfl := Option.some.inj ((Arena.nature?_of_find? he').symm.trans hm)
    exact ⟨e, rfl, hbecomes⟩

/-- A change sets no type but one that an element of the store is narrowed to. -/
def Grants (s : Store) : Change → Prop
  | .setType a m => ∃ e, s.arena.find? a = some e ∧ e.type.Becomes m
  | .setAccess _ _ | .setContent _ _ => True

theorem grants_of_plan {b : Staging} {ks : List Change} (hks : s.plan b = .ok ks) :
    ∀ k ∈ ks, s.Grants k := by
  intro k hk
  cases k with
  | setType a m =>
    obtain ⟨e, type, he, hm⟩ := setType_of_plan hks hk
    exact ⟨e, he, ElementType.becomes_of_narrow? hm⟩
  | setAccess a access => trivial
  | setContent a bytes => trivial

theorem Amended.alter (h : s.Amended s') {f : Element → Element}
    (hf : ∀ e e', s.arena.find? a = some e → s'.arena.find? a = some e' →
      e.nature.Becomes e'.nature → e.nature.Becomes (f e').nature) :
    s.Amended ((onArena (Arena.alter a f)).on s').2 := by
  cases he' : s'.arena.find? a with
  | none => simpa [on_onArena, Arena.alter, Step.on_bind, Arena.fetch, he'] using h
  | some e' =>
    obtain ⟨e, he, -⟩ := h.find? he'
    rw [on_alter he']
    exact h.update he fun e₁ he₁ => hf e e₁ he he₁

theorem Amended.setAccess (h : s.Amended s') (a : Address) (access : Access) :
    s.Amended ((Store.setAccess a access).on s').2 := h.alter fun _ _ _ _ hbecomes => hbecomes

theorem Amended.setContent (h : s.Amended s') (a : Address) (bytes : Bytes) :
    s.Amended ((Store.setContent a bytes).on s').2 := by
  rcases Step.ask_bind_cases (·.requireLink a)
    (fun _ => Step.change (changeContents (·.set a bytes))) s' with ⟨u, -, hrun⟩ | ⟨f, hrun⟩
  · rw [Store.setContent, hrun]
    exact h.contents
  · rw [Store.setContent, hrun]
    exact h

/-- Changes that were granted in `s` lead from it to amended stores, whatever was applied before. -/
theorem Amended.apply (h : s.Amended s') {k : Change} (hk : s.Grants k) :
    s.Amended ((Store.apply k).on s').2 := by
  cases k with
  | setType a m =>
    obtain ⟨e, he, hm⟩ := hk
    refine h.alter fun e₁ e' he₁ _ hbecomes => ⟨?_, hbecomes.ends⟩
    obtain rfl : e = e₁ := Option.some.inj (he.symm.trans he₁)
    exact hm
  | setAccess a access => exact h.setAccess a access
  | setContent a bytes => exact h.setContent a bytes

theorem keeps_amended_applyAll {ks : List Change} (hks : ∀ k ∈ ks, s.Grants k) :
    Step.Keeps s.Amended (applyAll ks) := by
  induction ks with
  | nil => exact fun _ h => h
  | cons k ks ih =>
    have hfirst : Step.Keeps s.Amended (Store.apply k) := fun _ h =>
      h.apply (hks k List.mem_cons_self)
    exact hfirst.bind fun _ => ih fun l hl => hks l (List.mem_cons_of_mem k hl)

/-- Narrowing an element amends the store. -/
theorem amended_narrow (a : Address) (type : ElementType) : s.Amended ((narrow a type).on s).2 := by
  rcases Step.ask_bind_cases (·.narrowed a type)
    (fun m => onArena (Arena.alter a ({ · with type := m }))) s with ⟨m, hm, hrun⟩ | ⟨f, hrun⟩
  · obtain ⟨e, he, hnarrow⟩ := narrowed_ok_iff.1 hm
    rw [narrow, hrun]
    exact (Amended.refl s).apply (k := .setType a m)
      ⟨e, he, ElementType.becomes_of_narrow? hnarrow⟩
  · rw [narrow, hrun]
    exact .refl s

end Store

/-- A commit amends the store, and so does one that fails. -/
theorem Transaction.amended_commit (x : Transaction) (s : Store) :
    s.Amended (Transaction.commit.on (x, s)).2.2 :=
  Transaction.keeps_commit (fun s' _ _ hs' hplan => hs'.trans
    (Store.keeps_amended_applyAll (Store.grants_of_plan hplan) s' (.refl s'))) x s (.refl s)

namespace Action

variable {s : Store} {k : Action}

/-- What neither makes nor erases elements amends the store. -/
theorem amends (hk : ¬k.IsStructural) : s.Amended (k.run.on s).2 := by
  have hdone : ∀ {x : Step Store Unit}, s.Amended (x.on s).2 →
      s.Amended (((fun _ => Answer.done) <$> x).on s).2 := by
    intro x hx
    rw [Step.on_map]
    exact hx
  cases k with
  | addNode type access => exact absurd trivial hk
  | addLink type access => exact absurd trivial hk
  | connect type source target access => exact absurd trivial hk
  | erase a => exact absurd trivial hk
  | narrow a type => exact hdone (Store.amended_narrow a type)
  | setAccess a access => exact hdone ((Store.Amended.refl s).setAccess a access)
  | setContent a bytes => exact hdone ((Store.Amended.refl s).setContent a bytes)
  | commit x => exact hdone (x.amended_commit s)

/-! ## Creations -/

/-- A creation is refused, or it makes its element, whose type is one of the kind. -/
theorem creation_cases {e : Element} (s : Store) (hk : k.element? = some e) :
    (∃ f, k.run.on s = (.error f, s)) ∨
      k.Typed ∧ k.run.on s = (Answer.made <$> Store.make e).on s := by
  obtain ⟨x, hx, hif⟩ := Store.exists_makesIf (s := s) hk
  rw [hx, Step.on_map, Step.on_map]
  rcases hif with ⟨⟨htyped, -⟩, hrun⟩ | ⟨-, f, hrun, -⟩
  · rw [hrun]
    exact .inr ⟨htyped, rfl⟩
  · rw [hrun]
    exact .inl ⟨f, rfl⟩

/-- The type of an element that is made is of a known kind, and the connectors have ends. -/
theorem clear_of_typed {e : Element} (hk : k.element? = some e) (htyped : k.Typed) :
    e.nature.Clear := by
  have hmarked : ∀ {type mark : ElementType} {access : Access}, type.isConnector = false →
      mark &&& .connectorBits = .unknown → mark &&& .node ≠ .unknown →
      Nature.Clear (Element.nature { type := type ||| mark, access }) := by
    intro type mark access hcon hconnector hnode
    refine ⟨ElementType.kind_ne_of_hasAny (m := .node) rfl (ElementType.hasAny_or_self hnode), ?_⟩
    exact ((ElementType.hasAny_or hconnector).trans hcon).symm
  cases k with
  | addNode type access =>
    obtain rfl := Option.some.inj hk
    exact hmarked htyped.1 (by decide) (by decide)
  | addLink type access =>
    obtain rfl := Option.some.inj hk
    exact hmarked htyped.1 (by decide) (by decide)
  | connect type source target access =>
    obtain rfl := Option.some.inj hk
    have hcon := ElementType.isConnector_of_isConnectorKind htyped.1
    exact ⟨ElementType.kind_ne_of_hasAny (m := .connectorBits) rfl hcon, hcon.symm⟩
  | erase _ | narrow _ _ | setAccess _ _ | setContent _ _ | commit _ => cases hk

end Action

namespace Store

variable {s : Store} {e : Element}

/-- An element that is made takes the place of no other, and its connection changes no nature. -/
theorem Regular.persists_make (h : s.Regular) (he : e.type.isUnknown = false) :
    s.arena.Persists ((make e).on s).2.arena := by
  have hinsert : Step.Keeps (fun s' => s'.Regular ∧ s.arena.Persists s'.arena) (insert e) := by
    intro s' hs'
    obtain ⟨hregular, hpersists⟩ := hs'
    show ((insert e).on s').2.arena.Regular ∧ s.arena.Persists ((insert e).on s').2.arena
    rw [(insert_on e s').2.1]
    refine ⟨Arena.Regular.allocate hregular he, ?_⟩
    rcases Arena.Regular.allocate_cases hregular e with ⟨a, t, hrun, hplaced⟩ | ⟨hrun, -⟩ |
      ⟨hrun, -⟩
    · rw [hrun]
      exact hpersists.trans hplaced.persists
    · rw [hrun]
      exact hpersists
    · rw [hrun]
      exact hpersists
  have hattach : ∀ c, Step.Keeps (fun s' => s'.Regular ∧ s.arena.Persists s'.arena)
      (onArena (attachAll c e.places)) := by
    intro c s' hs'
    have hshows := Arena.Regular.shows_of_aligned hs'.1 (x := attachAll c e.places)
      fun hR => hR.attachAll
    exact ⟨hshows.regular, hs'.2.trans (Arena.persists_of_nature? hshows.nature?)⟩
  have hmake := hinsert.bind fun c => (hattach c).bind fun _ => Step.keeps_pure c
  exact (hmake s ⟨h, .refl _⟩).2

end Store

namespace Action

variable {s : Store} {k : Action} {ks : List Action}

/-- Whether an operation takes no element away. -/
def Spares : Action → Prop
  | erase _ => False
  | addNode _ _ | addLink _ _ | connect _ _ _ _ | narrow _ _ | setAccess _ _ | setContent _ _
  | commit _ => True

theorem isStructural_cases (k : Action) :
    ¬k.IsStructural ∨ (∃ e, k.element? = some e) ∨ ∃ a, k = .erase a := by
  cases k with
  | addNode | addLink | connect => exact .inr (.inl ⟨_, rfl⟩)
  | erase a => exact .inr (.inr ⟨a, rfl⟩)
  | narrow | setAccess | setContent | commit => exact .inl fun h => h

/-- Unless they are erased elements stay, whatever the store is like. -/
theorem persists (h : s.Regular) (hk : k.Spares) : s.arena.Persists (k.run.on s).2.arena := by
  rcases k.isStructural_cases with hquiet | ⟨e, he⟩ | ⟨a, rfl⟩
  · exact (amends hquiet).persists
  · rcases creation_cases s he with ⟨f, hrun⟩ | ⟨htyped, hrun⟩
    · rw [hrun]
      exact .refl _
    · rw [hrun, Step.on_map]
      have hkind := (clear_of_typed he htyped).kind
      exact h.persists_make (ElementType.isUnknown_of_kind hkind)
  · exact hk.elim

theorem persists_runAll (h : s.Regular) (hks : ∀ k ∈ ks, k.Spares) :
    s.arena.Persists (runAll ks s).2.arena := by
  induction ks generalizing s with
  | nil => exact .refl _
  | cons k ks ih =>
    have hfirst := persists h (hks k List.mem_cons_self)
    have hrest := ih (k.keeps_regular s h) fun l hl => hks l (List.mem_cons_of_mem k hl)
    exact hfirst.trans hrest

end Action

end SemanticNet
