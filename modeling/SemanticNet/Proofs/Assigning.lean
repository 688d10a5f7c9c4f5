import SemanticNet.Proofs.Refusals
import SemanticNet.Proofs.Withdrawing

/-!
# Giving names

What it comes to when a session gives an element a name (`Reached.assign_cases`): the name was not
in use as far as the session may see, and now there are a link, an arc and a mark of the session's
levels that make up the one new naming (`Naming.Given`); or it fails, and the graph is the same as
before (`Naming.Fails`), because what was made on the way hangs on the link and is erased with it.
-/

namespace SemanticNet

variable {allowed : Settings → Prop} {made : List Address} {s s' s'' : Store} {c : Session}
  {relation a b : Address} {bytes bytes' : Bytes} {name : String} {n m : Naming} {e e' : Element}

/-! ## Calls of sessions -/

/-- A call that makes nothing leaves the record as it is. -/
theorem Reached.makesNothing {α : Type} {k : Draft.Call} {x : Step Store α} {g : α → Answer}
    (h : Reached allowed made s) (hc : c.levels.InUse) (hk : k.Admissible)
    (hx : k.direct c = g <$> x) (hg : ∀ r, madeBy (.ok (g r)) = []) :
    Reached allowed made (x.on s).2 := by
  have hdirect := h.direct hc hk
  rw [hx, Step.on_map] at hdirect
  rcases hrun : x.on s with ⟨f | r, s'⟩
  · rw [hrun] at hdirect
    exact hdirect
  · rw [hrun, Except.map, hg] at hdirect
    exact hdirect

theorem Reached.erase (h : Reached allowed made s) (hc : c.levels.InUse) (a : Address) :
    Reached allowed made ((c.erase a).on s).2 :=
  h.makesNothing hc (k := .erase a) trivial rfl fun _ => rfl

theorem Reached.setContent (h : Reached allowed made s) (hc : c.levels.InUse) (a : Address)
    (bytes : Bytes) : Reached allowed made ((c.setContent a bytes).on s).2 :=
  h.makesNothing hc (k := .setContent a bytes) trivial rfl fun _ => rfl

namespace Store

theorem Created.of_bare (h : s.Created s' a e') (hb : e'.bare = e.bare) : s.Created s' a e where
  tidy := h.tidy
  grown := by
    refine ⟨h.grown.fresh, fun b => ?_, fun x d cs hcs => ?_, h.grown.own⟩
    · rw [← hb, h.grown.bare]
    · rw [← Element.places_congr hb]
      exact h.grown.ring x d cs hcs
  ends := Element.places_congr hb ▸ h.ends
  proper := h.proper.of_bare hb.symm
  calm := (congrArg (·.erasing) hb).symm.trans h.calm
  contents := h.contents
  census := by
    have htype : e'.type = e.type := congrArg (·.type) hb
    rw [← htype, h.census]

/-- An operation that makes an element makes the one that it is for. -/
theorem AtRest.created_of_made {k : Action} (h : s.AtRest made) (hk : k.Admissible)
    (he : k.element? = some e) (hrun : k.run.on s = (.ok (.made a), s')) : s.Created s' a e := by
  rcases k.run_cases hk h with ⟨b, e', hmade, hcreated⟩ | ⟨x, order, -, herased, -⟩ | ⟨hnot, -⟩
  · rw [hrun] at hmade hcreated
    obtain rfl : a = b := by simpa using hmade
    have hnew := ((h.settles he).fills a (congrArg Prod.fst hrun)).new
    rw [hrun, hcreated.grown.bare, if_pos rfl] at hnew
    exact hcreated.of_bare (Option.some.inj hnew)
  · rw [hrun] at herased
    simp at herased
  · exact absurd (congrArg Prod.fst hrun) (hnot a)

theorem Agrees.trans (h : s.Agrees s') (h' : s'.Agrees s'') : s.Agrees s'' :=
  ⟨h'.arena.trans h.arena, h'.contents.trans h.contents, h'.census.trans h.census⟩

theorem agrees_noting (s : Store) (f : Failure) : s.Agrees (s.noting f) := by
  cases f <;> exact ⟨rfl, rfl, rfl⟩

end Store

namespace Session

/-- The connector that a session makes from `source` to `target`. -/
def connector (c : Session) (type : ElementType) (source target : Address) : Element :=
  { type, access := c.levels, connection := some { source, target } }

/-- The step is a call of the session that makes the element, which gets the levels of the session.
-/
structure Makes (c : Session) (x : Step Store Address) (e : Element) : Prop where
  call : ∃ k : Draft.Call, k.Admissible ∧ k.direct c = Answer.made <$> x ∧
    (k.action c).element? = some e
  access : e.access = c.levels

theorem makes_addNode (c : Session) (type : ElementType) :
    c.Makes (c.addNode type) { type := type ||| .node, access := c.levels } :=
  ⟨⟨.addNode type, trivial, rfl, rfl⟩, rfl⟩

theorem makes_addLink (c : Session) (type : ElementType) :
    c.Makes (c.addLink type) { type := type ||| .link, access := c.levels } :=
  ⟨⟨.addLink type, trivial, rfl, rfl⟩, rfl⟩

theorem makes_connect (c : Session) (type : ElementType) (source target : Address) :
    c.Makes (c.connect type source target) (c.connector type source target) :=
  ⟨⟨.connect type source target, trivial, rfl, rfl⟩, rfl⟩

end Session

/-- A session makes an element, or that fails and nothing changes but the metrics. -/
theorem Reached.adds {x : Step Store Address} (h : Reached allowed made s) (hc : c.levels.InUse)
    (hx : c.Makes x e) :
    (∃ a s', x.on s = (.ok a, s') ∧ Reached allowed (a :: made) s' ∧ s.Created s' a e) ∨
      ∃ f s', x.on s = (.error f, s') ∧ Reached allowed made s' ∧ s.Agrees s' := by
  obtain ⟨k, hk, hx, he⟩ := hx.call
  have hreached := h.direct hc hk
  have hcases := k.direct_cases c s
  have hharmless := k.harmless_direct h.atRest c
  rw [hx, Step.on_map] at hreached hcases
  rcases hrun : x.on s with ⟨f | a, s'⟩
  · rw [hrun] at hreached
    have hsame := (hharmless f s' (by rw [hx, Step.on_map, hrun]; rfl)).1
    refine .inr ⟨f, s', rfl, hreached, ?_⟩
    rw [hsame]
    exact s.agrees_noting f
  · rw [hrun] at hreached hcases
    refine .inl ⟨a, s', rfl, hreached, ?_⟩
    rcases hcases with ⟨f, hfail⟩ | ⟨-, hmade⟩
    · cases (Prod.mk.inj hfail).1
    · exact h.atRest.created_of_made (Draft.Call.admissible_action hc hk) he hmade.symm

/-! ## No new name -/

/-- Whatever is named in `s'` was named in `s`, by the same five elements. -/
def Store.AddsNoName (s s' : Store) : Prop :=
  ∀ bytes n, s'.Names bytes n →
    s.Names bytes n ∧ ∀ a ∈ n.toList, s'.arena.bare? a = s.arena.bare? a

namespace Store.AddsNoName

theorem of_sameGraph (h : s.SameGraph s') : s.AddsNoName s' :=
  fun _ _ hn => ⟨h.names hn, fun a _ => h.bare a⟩

/-- Two new elements do not make up a naming. -/
theorem of_extends {made' news : List Address} (h : s.AtRest made) (h' : s'.AtRest made')
    (hx : s.Extends s' news) (hnews : news.length ≤ 2) : s.AddsNoName s' := by
  intro bytes n hn
  refine hx.names_of_notMem h hn fun hlink => ?_
  have := hx.three_le_of_names h h' hn hlink
  omega

end Store.AddsNoName

/-! ## Given names -/

theorem Store.Shows.of_bare {levels : Access} (h : s'.Shows levels n)
    (hbare : ∀ b ∈ n.toList, s'.arena.bare? b = s.arena.bare? b) : s.Shows levels n := by
  intro b hb
  rw [← Arena.readable?_of_bare (hbare b hb)]
  exact h b hb

/-- A connector that runs one way joins its ends in that order. -/
theorem Session.joins_connector {type : ElementType} {source target x y : Address}
    (htype : type.isCommonEdge = false) :
    (c.connector type source target).Joins x y ↔ source = x ∧ target = y := by
  simp [connector, Element.Joins, htype]

/-- In `s'` there is the new naming `n`, of elements with the levels of the session. -/
structure Naming.Given (c : Session) (bytes : Bytes) (s s' : Store) (n : Naming) : Prop where
  new : s.Extends s' [n.mark, n.arc, n.link]
  link : s'.arena.bare? n.link
    = some (Element.bare { type := .const ||| .link, access := c.levels })
  arc : s'.arena.bare? n.arc = some (c.connector .constCommonArc n.element n.link).bare
  mark : s'.arena.bare? n.mark = some (c.connector .constPermPosArc n.relation n.arc).bare
  content : s'.contents.get? n.link = some bytes

/-- An element that is known apart from its rings connects what it goes between. -/
theorem Store.connects_of_connector {type mask : ElementType} {source target x y : Address}
    (hb : s.arena.bare? b = some (c.connector type source target).bare)
    (hedge : type.isCommonEdge = false) (hfits : type.fits mask = true) :
    s.Connects mask b x y ↔ source = x ∧ target = y := by
  obtain ⟨e, he, hbare⟩ := Arena.bare?_eq_some.1 hb
  have htype : e.type = type := congrArg (·.type) hbare
  rw [Store.Connects, ← Session.joins_connector (c := c) hedge, ← Element.joins_of_bare hbare]
  simp [he, htype, hfits]

namespace Naming.Given

theorem names (h : Given c bytes s s' n) : s'.Names bytes n where
  content := h.content
  arc := (Store.connects_of_connector h.arc (by decide) (by decide)).2 ⟨rfl, rfl⟩
  mark := (Store.connects_of_connector h.mark (by decide) (by decide)).2 ⟨rfl, rfl⟩

/-- The naming that is given is the only new one. -/
theorem names_cases {made' : List Address} (h : Given c bytes s s' n) (hrest : s.AtRest made)
    (hrest' : s'.AtRest made') (hm : s'.Names bytes' m) :
    (s.Names bytes' m ∧ ∀ a ∈ m.toList, s'.arena.bare? a = s.arena.bare? a) ∨
      m = n ∧ bytes' = bytes := by
  by_cases hlink : m.link ∈ [n.mark, n.arc, n.link]
  · right
    have hsame := h.new.eq_of_names hrest hrest' rfl hm h.names hlink (by simp)
    obtain ⟨hmark, harc, hlink⟩ : m.mark = n.mark ∧ m.arc = n.arc ∧ m.link = n.link := by
      simpa using hsame
    have helement := (Store.connects_of_connector h.arc (by decide) (by decide)).1 (harc ▸ hm.arc)
    have hrelation :=
      (Store.connects_of_connector h.mark (by decide) (by decide)).1 (hmark ▸ hm.mark)
    constructor
    · obtain ⟨element, arc, link, mark, relation⟩ := m
      obtain ⟨element', arc', link', mark', relation'⟩ := n
      simp_all
    · have hcontent := hm.content
      rw [hlink, h.content] at hcontent
      exact (Option.some.inj hcontent).symm
  · exact .inl (h.new.names_of_notMem hrest hm hlink)

/-- The session may read what it made for the name. -/
theorem shows (h : Given c bytes s s' n) (helement : c.mayRead s n.element = true)
    (hrelation : c.mayRead s n.relation = true) : s'.Shows c.levels n := by
  have hold : ∀ {a : Address}, c.mayRead s a = true → c.mayRead s' a = true := by
    intro a hread
    rw [h.new.mayRead (h.new.notMem_of_isSome (Store.isSome_of_mayRead hread))]
    exact hread
  simp only [Store.Shows, Store.readable?_eq_mayRead, Naming.toList, List.forall_mem_cons]
  exact ⟨hold helement, Store.mayRead_of_bare h.arc rfl, Store.mayRead_of_bare h.link rfl,
    Store.mayRead_of_bare h.mark rfl, hold hrelation, List.forall_mem_nil _⟩

end Naming.Given

/-- A connector has no content. -/
theorem Store.AtRest.content_of_connector {type : ElementType} {source target : Address}
    (h : s.AtRest made) (hb : s.arena.bare? b = some (c.connector type source target).bare)
    (htype : type.isLink = false) : s.contents.get? b = none := by
  by_contra hsome
  have hlink := h.sound.contents b (Option.isSome_iff_ne_none.2 hsome)
  obtain ⟨e, he, hbare⟩ := Arena.bare?_eq_some.1 hb
  have htype' : e.type = type := congrArg (·.type) hbare
  rw [Arena.isLinkAt, he, Option.any_some, htype', htype] at hlink
  cases hlink

namespace Naming.Given

/-- Any session finds under other names what it found. -/
theorem named?_other (h : Given c bytes s s' n) (hs : Reached allowed made s)
    (hs' : Reached allowed (n.mark :: n.arc :: n.link :: made) s') (hbytes : bytes' ≠ bytes) :
    s'.named? c relation bytes' = s.named? c relation bytes' := by
  refine h.new.named?_eq hs.atRest hs'.atRest hs.obtained.indexed hs'.obtained.indexed ?_
  simp only [List.forall_mem_cons, hs'.atRest.content_of_connector h.mark (by decide),
    hs'.atRest.content_of_connector h.arc (by decide), h.content]
  exact ⟨nofun, nofun, fun heq => hbytes (Option.some.inj heq).symm, List.forall_mem_nil _⟩

/-- The session finds the naming that it gave, if it found none before. -/
theorem named?_eq_some {made' : List Address} (h : Given c bytes s s' n)
    (hs : Reached allowed made s) (hs' : Reached allowed made' s')
    (helement : c.mayRead s n.element = true) (hrelation : c.mayRead s n.relation = true)
    (hnone : s.named? c n.relation bytes = none) : s'.named? c n.relation bytes = some n := by
  have hi := hs'.obtained.indexed
  obtain ⟨m, hm⟩ := Option.isSome_iff_exists.1
    (hs'.atRest.isSome_named? hi h.names (h.shows helement hrelation))
  obtain ⟨hnames, hmark, hshows⟩ := hs'.atRest.names_of_named? hi hm
  rcases h.names_cases hs.atRest hs'.atRest hnames with ⟨hold, hsame⟩ | ⟨rfl, -⟩
  · -- an old one would have been found before
    have hbefore := hs.atRest.isSome_named? hs.obtained.indexed hold (hshows.of_bare hsame)
    rw [hmark, hnone] at hbefore
    cases hbefore
  · exact hm

end Naming.Given

/-! ## Making a name -/

/-- The part of giving a name that connects its link, by an arc and a mark. -/
def Naming.connect (c : Session) (relation a link : Address) : Step Store Naming := do
  let arc ← c.connect .constCommonArc a link
  let mark ← c.connect .constPermPosArc relation arc
  pure ⟨a, arc, link, mark, relation⟩

/-- The part of giving a name that comes after its link is made. -/
def Naming.complete (c : Session) (relation a : Address) (name : String) (link : Address) :
    Step Store Naming := do
  c.setContent link (Utf8.encode name)
  connect c relation a link

/-- A session gives a link content, or is refused. -/
theorem Session.on_setContent (c : Session) (s : Store) (a : Address) (bytes : Bytes) :
    (c.setContent a bytes).on s = (.ok (), s.changeContents (·.set a bytes)) ∨
      ∃ f, (c.setContent a bytes).on s = (.error f, s) := by
  unfold Session.setContent
  rcases Step.ask_bind_cases (c.requireWrite · a) (fun _ => Store.setContent a bytes) s with
    ⟨u, -, hrun⟩ | ⟨f, hrun⟩
  · rw [hrun]
    exact Step.ask_bind_cases (·.requireLink a) _ s |>.imp (fun h => h.choose_spec.2) id
  · exact .inr ⟨f, hrun⟩

theorem Store.Created.bare?_eq (h : s.Created s' a e) (hb : s.arena.bare? b = some e') :
    s'.arena.bare? b = some e' := by
  have hne : b ≠ a := by
    intro heq
    subst heq
    rw [Arena.bare?, h.grown.fresh] at hb
    cases hb
  rw [h.grown.bare, if_neg hne, hb]

theorem Store.Created.bare?_new (h : s.Created s' a e) : s'.arena.bare? a = some e.bare := by
  rw [h.grown.bare, if_pos rfl]

/-- A step fails, and the graph is the same as before. -/
def Naming.Fails {α : Type} (allowed : Settings → Prop) (s : Store) (p : Except Failure α × Store) :
    Prop :=
  ∃ f s' made', p = (.error f, s') ∧ Reached allowed made' s' ∧ s.SameGraph s'

/-- A step fails when there is no more of a naming than the link and what hangs on it. -/
def Naming.BreaksOff {α : Type} (allowed : Settings → Prop) (c : Session) (s : Store)
    (link : Address) (p : Except Failure α × Store) : Prop :=
  ∃ f s' news made', p = (.error f, s') ∧ Reached allowed made' s' ∧ s.Begun s' news link ∧
    c.MayWrite s' link

/-- A name is given: there is a new naming of the element. -/
def Naming.Succeeds (allowed : Settings → Prop) (made : List Address) (c : Session)
    (relation a : Address) (bytes : Bytes) (s : Store) (p : Except Failure Naming × Store) : Prop :=
  ∃ n s', p = (.ok n, s') ∧ n.element = a ∧ n.relation = relation ∧
    Reached allowed (n.mark :: n.arc :: n.link :: made) s' ∧ Given c bytes s s' n

section Completing

variable {s₁ s₂ : Store} {link : Address}

/-- From a link with the content to the naming, or to a part of it. -/
theorem Reached.connects_cases (h₂ : Reached allowed (link :: made) s₂) (hc : c.levels.InUse)
    (hx₂ : s.Extends s₂ [link]) (hlink : s₂.arena.bare? link
      = some (Element.bare { type := .const ||| .link, access := c.levels }))
    (hcontent : s₂.contents.get? link = some bytes) :
    Naming.Succeeds allowed made c relation a bytes s ((Naming.connect c relation a link).on s₂) ∨
      Naming.BreaksOff allowed c s link ((Naming.connect c relation a link).on s₂) := by
  have hin : ∀ {type : ElementType} {source target x y : Address} {news : List Address},
      type.isCommonEdge = false → (c.connector type source target).Joins x y →
      y ∈ target :: news := by
    intro type source target x y news hedge hjoins
    obtain ⟨-, rfl⟩ := (Session.joins_connector hedge).1 hjoins
    exact List.mem_cons_self
  rw [Naming.connect, Step.on_bind]
  rcases h₂.adds hc (c.makes_connect .constCommonArc a link) with
    ⟨arc, s₃, harc, h₃, hc₃⟩ | ⟨f, s₃, harc, h₃, hagrees⟩
  · rw [harc]
    dsimp only
    have hx₃ : s.Extends s₃ [arc, link] := hx₂.created hc₃ fun x y => hin (by decide)
    rw [Step.on_bind]
    rcases h₃.adds hc (c.makes_connect .constPermPosArc relation arc) with
      ⟨mark, s₄, hmark, h₄, hc₄⟩ | ⟨f, s₄, hmark, h₄, hagrees⟩
    · rw [hmark]
      have hx₄ : s.Extends s₄ [mark, arc, link] := hx₃.created hc₄ fun x y => hin (by decide)
      refine .inl ⟨⟨a, arc, link, mark, relation⟩, s₄, rfl, rfl, rfl, h₄, hx₄, ?_, ?_, ?_, ?_⟩
      · exact hc₄.bare?_eq (hc₃.bare?_eq hlink)
      · exact hc₄.bare?_eq hc₃.bare?_new
      · exact hc₄.bare?_new
      · rw [hc₄.contents, hc₃.contents, hcontent]
    · have htouches : s₃.arena.Touches arc link := by
        have hconnects : s₃.Connects .constCommonArc arc a link :=
          (Store.connects_of_connector hc₃.bare?_new (by decide) (by decide)).2 ⟨rfl, rfl⟩
        exact hconnects.touches.2
      have hbegun : s.Begun s₃ [arc, link] link := by
        refine ⟨hx₃, by simp, fun b hb => ?_⟩
        rcases List.mem_pair.1 hb with rfl | rfl
        · exact .touching .self htouches
        · exact .self
      rw [hmark]
      refine .inr ⟨f, s₄, _, _, rfl, h₄, hbegun.agrees hagrees, ?_⟩
      exact Store.mayWrite_of_bare (hagrees.arena ▸ hc₃.bare?_eq hlink) rfl
  · rw [harc]
    refine .inr ⟨f, s₃, _, _, rfl, h₃, (Store.Begun.alone hx₂).agrees hagrees, ?_⟩
    exact Store.mayWrite_of_bare (hagrees.arena ▸ hlink) rfl

/-- Once its link is there a naming is completed, or it breaks off. -/
theorem Reached.complete_cases (h₁ : Reached allowed (link :: made) s₁) (hc : c.levels.InUse)
    (hx : s.Extends s₁ [link]) (hlink : s₁.arena.bare? link
      = some (Element.bare { type := .const ||| .link, access := c.levels }))
    (relation a : Address) (name : String) :
    Naming.Succeeds allowed made c relation a (Utf8.encode name) s
      ((Naming.complete c relation a name link).on s₁) ∨
    Naming.BreaksOff allowed c s link ((Naming.complete c relation a name link).on s₁) := by
  unfold Naming.complete
  rw [Step.on_bind]
  rcases c.on_setContent s₁ link (Utf8.encode name) with hset | ⟨f, hset⟩
  · have hx₂ : s.Extends (s₁.changeContents (·.set link (Utf8.encode name))) [link] :=
      hx.setContent (by simp) _
    have h₂ := h₁.setContent hc link (Utf8.encode name)
    rw [hset] at h₂
    rw [hset]
    refine h₂.connects_cases hc hx₂ hlink ?_
    show (s₁.contents.set link _).get? link = _
    rw [Contents.get?_set, if_pos rfl]
  · rw [hset]
    exact .inr ⟨f, s₁, _, _, rfl, h₁, .alone hx, Store.mayWrite_of_bare hlink rfl⟩

end Completing

/-! ## Outcomes -/

theorem Reached.noteScans (h : Reached allowed made s) (m : Scans) :
    Reached allowed made (s.noteScans m) := h.counted _

theorem Naming.fails_of_agrees {α : Type} {f : Failure} (h' : Reached allowed made s')
    (ha : s.Agrees s') : Fails allowed s ((.error f, s') : Except Failure α × Store) :=
  ⟨f, s', _, rfl, h', .of_agrees ha⟩

/-- A session withdraws what it has begun. -/
theorem Reached.withdraws {made' news : List Address} (h : Reached allowed made s)
    (h' : Reached allowed made' s') (hc : c.levels.InUse) (hbegun : s.Begun s' news a)
    (hwrite : c.MayWrite s' a) :
    ∃ order s'', (c.erase a).on s' = (.ok order, s'') ∧ Reached allowed made' s'' ∧
      s.SameGraph s'' := by
  obtain ⟨e, he, -⟩ := id hwrite
  obtain ⟨order, s'', herase, hsame⟩ :=
    hbegun.withdrawn h.atRest h'.atRest (Option.isSome_of_eq_some he)
  have hrun : (c.erase a).on s' = (.ok order, s'') := by
    rw [Session.erase, Step.on_bind, Step.on_ask, Session.requireWrite_iff.2 hwrite]
    exact herase
  have hreached := h'.erase hc a
  rw [hrun] at hreached
  exact ⟨order, s'', hrun, hreached, hsame⟩

theorem Naming.on_discard {order : List Address} (hwrite : c.MayWrite s a)
    (herase : (c.erase a).on s = (.ok order, s')) : (discard c a).on s = (.ok (), s') := by
  obtain ⟨e, he, -⟩ := hwrite
  have hlive : s.isLive a = true := Option.isSome_of_eq_some he
  rw [discard, Step.on_bind, Step.on_get]
  dsimp only
  rw [if_pos hlive, Step.on_tryCatch, Step.on_bind, herase]
  rfl

/-- An element gets a name, or what was made for it is withdrawn. -/
theorem Reached.label_cases {t : Store} (h : Reached allowed made s) (ha : s.Agrees t)
    (ht : Reached allowed made t) (hc : c.levels.InUse) (relation a : Address) (name : String) :
    Naming.Succeeds allowed made c relation a (Utf8.encode name) s
      ((Naming.label c relation a name).on t) ∨
    Naming.Fails allowed s ((Naming.label c relation a name).on t) := by
  have hlabel : Naming.label c relation a name = (do
      let link ← c.addLink .const
      tryCatch (Naming.complete c relation a name link) fun f => do
        Naming.discard c link
        throw f) := rfl
  rw [hlabel, Step.on_bind]
  rcases ht.adds hc (c.makes_addLink .const) with
    ⟨link, s₁, hlink, h₁, hc₁⟩ | ⟨f, s₁, hlink, h₁, hagrees⟩
  swap
  · rw [hlink]
    exact .inr (Naming.fails_of_agrees h₁ (ha.trans hagrees))
  rw [hlink]
  dsimp only
  have hx₁ : s.Extends s₁ [link] := ((Store.Extends.refl s).agrees ha).createdAlone hc₁ rfl
  rw [Step.on_tryCatch]
  rcases h₁.complete_cases hc hx₁ hc₁.bare?_new relation a name with
    hdone | ⟨f, s₂, news, made', hfail, h₂, hbegun, hwrite⟩
  · obtain ⟨n, s', hrun, hn⟩ := hdone
    rw [hrun]
    exact .inl ⟨n, s', rfl, hn⟩
  · obtain ⟨order, s₃, herase, h₃, hsame⟩ := h.withdraws h₂ hc hbegun hwrite
    rw [hfail]
    dsimp only
    rw [Step.on_bind, Naming.on_discard hwrite herase]
    exact .inr ⟨f, s₃, _, rfl, h₃, hsame⟩

/-- The part of giving a name that comes after the search for it. -/
def Naming.grant (c : Session) (relation a : Address) (name : String) : Step Store Naming := do
  Step.ask (c.requireWrite · a)
  Step.ask (c.requireWrite · relation)
  label c relation a name

theorem Reached.grant_cases {t : Store} (h : Reached allowed made s) (ha : s.Agrees t)
    (ht : Reached allowed made t) (hc : c.levels.InUse) (relation a : Address) (name : String) :
    Naming.Succeeds allowed made c relation a (Utf8.encode name) s
      ((Naming.grant c relation a name).on t) ∨
    Naming.Fails allowed s ((Naming.grant c relation a name).on t) := by
  unfold Naming.grant
  rcases Step.ask_bind_cases (c.requireWrite · a) _ t with ⟨u, -, hrun⟩ | ⟨f, hrun⟩
  swap
  · rw [hrun]
    exact .inr (Naming.fails_of_agrees ht ha)
  rw [hrun]
  rcases Step.ask_bind_cases (c.requireWrite · relation) _ t with ⟨u, -, hrun⟩ | ⟨f, hrun⟩
  swap
  · rw [hrun]
    exact .inr (Naming.fails_of_agrees ht ha)
  rw [hrun]
  exact h.label_cases ha ht hc relation a name

/-- A session gives an element a name that is not in use as far as it may see, or that fails and the
graph is the same as before. -/
theorem Reached.assign_cases (h : Reached allowed made s) (hc : c.levels.InUse)
    (relation a : Address) (name : String) :
    (Naming.isValid name = true ∧ s.named? c relation (Utf8.encode name) = none ∧
      Naming.Succeeds allowed made c relation a (Utf8.encode name) s
        ((Naming.assign c relation a name).on s)) ∨
    Naming.Fails allowed s ((Naming.assign c relation a name).on s) := by
  have hassign : Naming.assign c relation a name = (do
      if (← Naming.find? c relation name).isSome then throw (.identifierTaken name)
      Naming.grant c relation a name) := rfl
  rw [hassign, Step.on_bind]
  cases hvalid : Naming.isValid name with
  | false =>
    rw [Store.on_find?_invalid hvalid]
    exact .inr (Naming.fails_of_agrees h (.refl s))
  | true =>
    rcases h.atRest.on_find?_cases c relation hvalid with ⟨k, hfind⟩ | ⟨f, hfind⟩
    · rw [hfind]
      dsimp only
      cases hnamed : s.named? c relation (Utf8.encode name) with
      | some n => exact .inr (Naming.fails_of_agrees (h.noteScans k) (s.agrees_noteScans k))
      | none =>
        rw [Option.isSome_none, if_neg Bool.false_ne_true]
        rcases h.grant_cases (s.agrees_noteScans k) (h.noteScans k) hc relation a name with
          hdone | hfail
        · exact .inl ⟨rfl, rfl, hdone⟩
        · exact .inr hfail
    · rw [hfind]
      exact .inr (Naming.fails_of_agrees h (.refl s))

end SemanticNet
