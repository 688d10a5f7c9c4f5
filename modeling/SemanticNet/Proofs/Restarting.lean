import SemanticNet.Proofs.Saving
import SemanticNet.Proofs.UniqueNames

/-!
# Restarts

A memory knows its relation node by the name that the node gives itself (`Store.KnowsRelation`), and
so does the memory that is started from its dump: as long as that name is there, can be read, and is
no one else's, no second relation node is made (`Store.AtRest.on_resolveRelation`). Stores with the
same elements and contents answer alike what is asked about names (`Store.Mirrors`), so names are
what they were (`Memory.names_survive_restart`).
-/

namespace SemanticNet

variable {allowed : Settings → Prop} {made : List Address} {s s' : Store} {c : Session}
  {levels : Access} {relation link a : Address} {name : String} {n : Naming}

/-! ## Relation nodes -/

/-- The pattern for the relation nodes that name themselves through a link. -/
def Naming.selfPattern (link : Address) : MarkedPattern where
  main := ⟨.any .constNorole, .any .constCommonArc, .fixed link⟩
  mark := .any .constPermPosArc
  origin := .any .constNorole

namespace Store

/-- The relation node of the naming gives itself the name of relation nodes, and whoever has these
levels may read all of it. -/
structure SelfNames (s : Store) (levels : Access) (n : Naming) : Prop where
  names : s.Names (Utf8.encode Naming.relationName) n
  itself : n.element = n.relation
  type : ∃ e, s.arena.find? n.relation = some e ∧ e.type.fits .constNorole = true
  shows : s.Shows levels n

/-- There is one relation node that names itself, as far as one may read with these levels. -/
structure KnowsRelation (s : Store) (levels : Access) (relation : Address) : Prop where
  named : ∃ n, s.SelfNames levels n ∧ n.relation = relation
  only : ∀ n, s.SelfNames levels n → n.relation = relation

/-- The relation nodes that name themselves through a link, as a session finds them. -/
def selfNamedBy (s : Store) (c : Session) (link : Address) : List Address :=
  ((s.joined (Naming.selfPattern link) c.levels).filter fun q => q.main.source == q.origin).map
    (·.origin)

/-- All relation nodes that name themselves, as a session finds them. -/
def selfNamed (s : Store) (c : Session) : List Address :=
  (c.find s (Utf8.encode Naming.relationName)).flatMap (s.selfNamedBy c)

theorem walksRings_selfPattern (link : Address) : WalksRings (Naming.selfPattern link) where
  main := rfl
  mark := rfl
  origin := by simp [Naming.selfPattern, Term.fixed?]

theorem KnowsRelation.ne_empty (h : s.KnowsRelation levels relation) : relation ≠ .empty := by
  obtain ⟨n, hn, rfl⟩ := h.named
  obtain ⟨e, he, -⟩ := hn.type
  exact Arena.ne_empty_of_find? he

/-- What a session finds are the relation nodes that name themselves. -/
theorem AtRest.mem_selfNamed (h : s.AtRest made) (hi : s.contents.Indexed) :
    relation ∈ s.selfNamed c ↔ ∃ n, s.SelfNames c.levels n ∧ n.relation = relation := by
  simp only [selfNamed, selfNamedBy, List.mem_flatMap, List.mem_map, List.mem_filter, beq_iff_eq]
  constructor
  · intro hfound
    obtain ⟨link, hlink, q, ⟨hq, hitself⟩, rfl⟩ := hfound
    obtain ⟨rfl, hconnects, hmarks, hsource, horigin, harc, htarget, hmark⟩ :=
      h.mem_joined_to.1 hq
    obtain ⟨htype, hread⟩ := fits_any.1 horigin
    have hcontent := hi.mem_find.1 (List.mem_filter.1 hlink).1
    refine ⟨.ofQuintuple q, ⟨⟨hcontent, hconnects, hmarks⟩, hitself, htype, ?_⟩, rfl⟩
    simp only [Shows, Naming.toList, List.forall_mem_cons, Naming.ofQuintuple]
    exact ⟨(fits_any.1 hsource).2, harc, htarget, hmark, hread, List.forall_mem_nil _⟩
  · intro hknown
    obtain ⟨n, hn, rfl⟩ := hknown
    have hread := hn.shows
    simp only [Shows, Naming.toList, List.forall_mem_cons] at hread
    obtain ⟨helement, harc, hlink, hmark, hrelation, -⟩ := hread
    have htype := fits_any.2 ⟨hn.type, hrelation⟩
    refine ⟨n.link, List.mem_filter.2 ⟨hi.mem_find.2 hn.names.content, ?_⟩,
      ⟨⟨n.element, n.arc, n.link⟩, n.mark, n.relation⟩, ⟨h.mem_joined_to.2 ?_, hn.itself⟩, rfl⟩
    · rwa [← readable?_eq_mayRead]
    · exact ⟨rfl, hn.names.arc, hn.names.mark, hn.itself ▸ htype, htype, harc, hlink, hmark⟩

theorem AtRest.knowsRelation_iff (h : s.AtRest made) (hi : s.contents.Indexed) :
    s.KnowsRelation c.levels relation ↔
      relation ∈ s.selfNamed c ∧ ∀ r ∈ s.selfNamed c, r = relation := by
  simp only [h.mem_selfNamed hi]
  constructor
  · intro hknows
    refine ⟨hknows.named, fun r hr => ?_⟩
    obtain ⟨n, hn, rfl⟩ := hr
    exact hknows.only n hn
  · intro hfound
    exact ⟨hfound.1, fun n hn => hfound.2 _ ⟨n, hn, rfl⟩⟩

/-- The search for relation nodes comes to those that the session finds, and counts what it looks
at. -/
theorem AtRest.on_selfNamed (h : s.AtRest made) (links : List Address) :
    ∃ k, (Naming.selfNamed c links).on s
      = (.ok (links.flatMap (s.selfNamedBy c)), s.noteScans k) := by
  induction links generalizing s with
  | nil => exact ⟨{}, by rw [noteScans_zero]; rfl⟩
  | cons link links ih =>
    obtain ⟨j, hfirst⟩ := h.on_quintuples_all ((walksRings_selfPattern link).open? c.levels)
    obtain ⟨k, hrest⟩ := ih (h.agrees (s.agrees_noteScans j))
    have hsame : (s.noteScans j).selfNamedBy c = s.selfNamedBy c := by
      funext link
      rw [selfNamedBy, selfNamedBy, joined_noteScans]
    have hwalk : (c.quintuples (Naming.selfPattern link) none).on s = _ := hfirst
    have hask : Naming.selfNamed c (link :: links) = (do
        let found ← c.quintuples (Naming.selfPattern link) none
        let here := (found.filter fun q => q.main.source == q.origin).map (·.origin)
        return here ++ (← Naming.selfNamed c links)) := rfl
    refine ⟨j + k, ?_⟩
    rw [hask, Step.on_bind, hwalk]
    dsimp only
    rw [Step.on_bind, hrest, hsame, noteScans_noteScans]
    rfl

/-- What is done about the relation node depends on the ones that the session finds. -/
theorem AtRest.on_resolveRelation_eq (h : s.AtRest made) :
    ∃ k, (Naming.resolveRelation c).on s = match s.selfNamed c with
      | [] => (Naming.createRelation c).on (s.noteScans k)
      | node :: others =>
        if others.all (· == node) then (.ok node, s.noteScans k)
        else (.error (.identifierTaken Naming.relationName), s.noteScans k) := by
  obtain ⟨k, hrun⟩ := h.on_selfNamed (c := c) (c.find s (Utf8.encode Naming.relationName))
  have hsearch : (Naming.selfNamed c (c.find s (Utf8.encode Naming.relationName))).on s
      = (.ok (s.selfNamed c), s.noteScans k) := hrun
  refine ⟨k, ?_⟩
  rw [Naming.resolveRelation, Step.on_bind, Step.on_get]
  dsimp only
  rw [Step.on_bind, hsearch]
  cases s.selfNamed c with
  | nil => rfl
  | cons first others =>
    dsimp only
    split <;> rfl

/-- A relation node that is known is found again, and none is made. -/
theorem AtRest.on_resolveRelation (h : s.AtRest made) (hi : s.contents.Indexed)
    (hknows : s.KnowsRelation c.levels relation) :
    ∃ k, (Naming.resolveRelation c).on s = (.ok relation, s.noteScans k) := by
  obtain ⟨hmem, hall⟩ := (h.knowsRelation_iff hi).1 hknows
  obtain ⟨k, hrun⟩ := h.on_resolveRelation_eq (c := c)
  refine ⟨k, hrun.trans ?_⟩
  cases hfound : s.selfNamed c with
  | nil =>
    rw [hfound] at hmem
    cases hmem
  | cons first others =>
    rw [hfound] at hall
    obtain ⟨rfl, hothers⟩ := List.forall_mem_cons.1 hall
    have hsame : others.all (· == first) = true :=
      List.all_eq_true.2 fun r hr => beq_iff_eq.2 (hothers r hr)
    dsimp only
    rw [if_pos hsame]

/-! ## Stores that answer alike -/

/-- The elements and the contents of `s'` are those of `s`. -/
structure Mirrors (s s' : Store) : Prop where
  find? : ∀ a, s'.arena.find? a = s.arena.find? a
  get? : ∀ a, s'.contents.get? a = s.contents.get? a

theorem Mirrors.symm (h : s.Mirrors s') : s'.Mirrors s :=
  ⟨fun a => (h.find? a).symm, fun a => (h.get? a).symm⟩

namespace Mirrors

theorem readable? (h : s.Mirrors s') (levels : Access) (a : Address) :
    s'.arena.readable? levels a = s.arena.readable? levels a := by
  rw [Arena.readable?, Arena.readable?, h.find?]

theorem mayRead (h : s.Mirrors s') (a : Address) : c.mayRead s' a = c.mayRead s a := by
  rw [Session.mayRead, Session.mayRead, h.find?]

theorem shows (h : s.Mirrors s') (hn : s.Shows levels n) : s'.Shows levels n := by
  intro a ha
  rw [h.readable?]
  exact hn a ha

theorem fits (h : s.Mirrors s') {p : Pattern} {τ : Triple} :
    p.Fits s'.arena levels τ ↔ p.Fits s.arena levels τ := by
  have hterm : ∀ (m : Term) (a : Address), m.Fits s'.arena levels a ↔ m.Fits s.arena levels a := by
    intro m a
    rw [Term.Fits, Term.Fits, h.readable?]
  constructor
  · rintro ⟨hjoins, hsource, hconnector, htarget⟩
    rw [h.find?] at hjoins
    exact ⟨hjoins, (hterm _ _).1 hsource, (hterm _ _).1 hconnector, (hterm _ _).1 htarget⟩
  · rintro ⟨hjoins, hsource, hconnector, htarget⟩
    rw [← h.find?] at hjoins
    exact ⟨hjoins, (hterm _ _).2 hsource, (hterm _ _).2 hconnector, (hterm _ _).2 htarget⟩

theorem textOf (h : s.Mirrors s') (a : Address) : c.textOf s' a = c.textOf s a := by
  have hfetch : s'.arena.fetch a = s.arena.fetch a := by
    rw [Arena.fetch, Arena.fetch, h.find?]
  simp only [Session.textOf, Session.contentOf, Session.requireRead, contentOf, requireLink,
    typeOf, accessOf, hfetch, h.get?]

section

variable (h : s.Mirrors s') (hs : s.AtRest made) (hs' : s'.AtRest made)

include h hs hs'

theorem walk_eq {p : Pattern} (hp : p.anchor?.isSome) : s'.walk p levels = s.walk p levels :=
  (hs'.walksRing hp levels).eq_of_mem_iff (hs.walksRing hp levels).newest fun τ => by
    rw [(hs'.walksRing hp levels).mem_iff, (hs.walksRing hp levels).mem_iff, h.fits]

theorem joined_eq {p : MarkedPattern} (hp : WalksRings p) :
    s'.joined p levels = s.joined p levels := by
  have hmarks : (fun b => s'.walk (p.marksOf b) levels) = fun b => s.walk (p.marksOf b) levels := by
    funext b
    exact h.walk_eq hs hs' (hp.anchor? b)
  rw [joined, joined, h.walk_eq hs hs' hp.main, hmarks]

theorem nameOf_eq (hr : relation ≠ .empty) (a : Address) :
    s'.nameOf c relation a = s.nameOf c relation a := by
  rw [nameOf, nameOf, h.joined_eq hs hs' (walksRings_namesPattern hr a)]
  simp only [h.textOf]

theorem named?_eq (hi : s.contents.Indexed) (hi' : s'.contents.Indexed) (hr : relation ≠ .empty)
    (bytes : Bytes) : s'.named? c relation bytes = s.named? c relation bytes := by
  have hfind : c.find s' bytes = c.find s bytes := by
    rw [Session.find, Session.find, Contents.find_congr hi hi' fun a => by rw [h.get?]]
    exact List.filter_congr fun a _ => h.mayRead a
  rw [named?, named?, hfind]
  simp only [h.joined_eq hs hs' (walksRings_pattern hr _)]

/-- Who asks for the element of a name, or for the name of an element, gets the same answer. -/
theorem answers (hi : s.contents.Indexed) (hi' : s'.contents.Indexed) (hr : relation ≠ .empty) :
    (∀ name, ((Naming.find? c relation name).on s').1 = ((Naming.find? c relation name).on s).1) ∧
    ∀ a, ((Naming.nameOf? c relation a).on s').1 = ((Naming.nameOf? c relation a).on s).1 := by
  constructor
  · intro name
    cases hvalid : Naming.isValid name with
    | false => rw [on_find?_invalid hvalid, on_find?_invalid hvalid]
    | true =>
      obtain ⟨k, hrun⟩ := hs.on_find? (c := c) hr hvalid
      obtain ⟨k', hrun'⟩ := hs'.on_find? (c := c) hr hvalid
      rw [hrun, hrun', h.named?_eq hs hs' hi hi' hr]
  · intro a
    obtain ⟨k, hrun⟩ := hs.on_nameOf? (c := c) hr a
    obtain ⟨k', hrun'⟩ := hs'.on_nameOf? (c := c) hr a
    rw [hrun, hrun', h.nameOf_eq hs hs' hr]

end

end Mirrors

end Store

/-! ## Started memories -/

namespace Memory

variable {m m' : Memory} {files : FileTree} {folder : String} {settings : Settings}

/-- The memory `m'` has the elements, the contents and the names of `m`, with the same relation
node. -/
structure Resumes (m m' : Memory) : Prop where
  settings : m'.settings = m.settings
  relation : m'.relation = m.relation
  segments : m'.store.arena.segments = m.store.arena.segments
  contents : m'.store.contents.entries = m.store.contents.entries
  find? : ∀ (c : Session) name, ((Naming.find? c m'.relation name).on m'.store).1
    = ((Naming.find? c m.relation name).on m.store).1
  nameOf? : ∀ (c : Session) a, ((Naming.nameOf? c m'.relation a).on m'.store).1
    = ((Naming.nameOf? c m.relation a).on m.store).1

end Memory

end SemanticNet
