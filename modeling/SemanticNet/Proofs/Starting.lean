import SemanticNet.Memory
import SemanticNet.Proofs.Resolving

/-!
# Started memories

A session makes elements of its own levels, so whatever it does about names, all elements stay
readable at the highest read level of the sessions so far (`Naming.keeps_assign` and the others). A
memory that is started empty has elements of the lowest levels only, and its one name is that of the
relation node (`Memory.started_empty`).
-/

namespace SemanticNet

open Step (Keeps)

variable {allowed : Settings → Prop} {made : List Address} {s s' : Store} {c : Session}
  {relation a : Address} {name : String} {type : ElementType} {n : Naming} {e : Element}
  {level : UInt8}

/-! ## Read levels -/

/-- The store was reached, and all of its elements may be read at this level. -/
structure Store.ReadableAt (allowed : Settings → Prop) (level : UInt8) (s : Store) : Prop where
  reached : ∃ made, Reached allowed made s
  access : ∀ a e, s.arena.find? a = some e → e.access.read ≤ level

/-- All elements stay readable when each one is as before or may be read. -/
theorem Store.ReadableAt.next {made' : List Address} (h : s.ReadableAt allowed level)
    (h' : Reached allowed made' s') (hnext : ∀ a e, s'.arena.find? a = some e →
      s'.arena.bare? a = s.arena.bare? a ∨ e.access.read ≤ level) :
    s'.ReadableAt allowed level := by
  refine ⟨⟨made', h'⟩, fun a e' he' => ?_⟩
  rcases hnext a e' he' with hold | hread
  · obtain ⟨e, he, hbare⟩ := Arena.find?_of_bare hold he'
    have haccess : e'.access = e.access := congrArg (·.access) hbare
    rw [haccess]
    exact h.access a e he
  · exact hread

theorem Store.ReadableAt.mono {level' : UInt8} (h : s.ReadableAt allowed level)
    (hl : level ≤ level') : s.ReadableAt allowed level' :=
  ⟨h.reached, fun a e he => UInt8.le_trans (h.access a e he) hl⟩

/-- A session erases an element with what hangs on it, or is refused. -/
theorem Store.AtRest.erase_cases (h : s.AtRest made) (c : Session) (a : Address) :
    ((c.erase a).on s).2 = s ∨
      ∃ order, ((c.erase a).on s).2.AtRest made ∧ s.Less ((c.erase a).on s).2 order := by
  unfold Session.erase
  rcases Step.ask_bind_cases (c.requireWrite · a) (fun _ => Store.erase a) s with
    ⟨u, -, hrun⟩ | ⟨f, hrun⟩
  · rw [hrun]
    cases ha : s.arena.find? a with
    | none =>
      obtain ⟨f, hdead⟩ := Store.erase_dead ha
      rw [hdead]
      exact .inl rfl
    | some e =>
      obtain ⟨order, s', herase, hrest, hless, -⟩ := h.erase (Option.isSome_of_eq_some ha)
      rw [herase]
      exact .inr ⟨order, hrest, hless⟩
  · rw [hrun]
    exact .inl rfl

namespace Session

/-- A session that makes an element keeps all elements readable. -/
theorem Makes.keeps {x : Step Store Address} (hx : c.Makes x e) (hc : c.levels.InUse)
    (hl : c.levels.read ≤ level) : Keeps (Store.ReadableAt allowed level) x := by
  intro s hs
  obtain ⟨made, h⟩ := hs.reached
  rcases h.adds hc hx with ⟨a, s', hrun, h', hcreated⟩ | ⟨f, s', hrun, h', hagrees⟩
  · rw [hrun]
    refine hs.next h' fun b e' he' => ?_
    by_cases hba : b = a
    · subst hba
      obtain ⟨e'', he'', hb⟩ := hcreated.grown.find?_new
      obtain rfl := Option.some.inj (he'.symm.trans he'')
      have haccess' : e'.access = e.access := congrArg (·.access) hb
      rw [haccess', hx.access]
      exact .inr hl
    · left
      rw [hcreated.grown.bare, if_neg hba]
  · rw [hrun]
    refine hs.next h' fun b e' he' => .inl ?_
    rw [hagrees.arena]

theorem keeps_setContent (hc : c.levels.InUse) (a : Address) (bytes : Bytes) :
    Keeps (Store.ReadableAt allowed level) (c.setContent a bytes) := by
  intro s hs
  obtain ⟨made, h⟩ := hs.reached
  refine ⟨⟨_, h.setContent hc a bytes⟩, ?_⟩
  rcases c.on_setContent s a bytes with hset | ⟨f, hset⟩ <;> rw [hset] <;> exact hs.access

theorem keeps_erase (hc : c.levels.InUse) (a : Address) :
    Keeps (Store.ReadableAt allowed level) (c.erase a) := by
  intro s hs
  obtain ⟨made, h⟩ := hs.reached
  refine hs.next (h.erase hc a) fun b e' he' => .inl ?_
  rcases h.atRest.erase_cases c a with hsame | ⟨order, -, hless⟩
  · rw [hsame]
  · have hlive := hless.arena.isSome_find?.1 (Option.isSome_of_eq_some he')
    rw [hless.arena.bare, if_neg hlive.1]

theorem keeps_quintuples (c : Session) (pattern : MarkedPattern) (limit : Option Nat) :
    Keeps (Store.ReadableAt allowed level) (c.quintuples pattern limit) := by
  intro s hs
  obtain ⟨made, h⟩ := hs.reached
  unfold quintuples Store.quintuples
  cases hopen : Quintuples.open? pattern c.levels with
  | ok w => exact ⟨⟨made, h.counted _⟩, hs.access⟩
  | error f => exact hs

end Session

namespace Naming

theorem keeps_findAmong (c : Session) (relation : Address) (links : List Address) :
    Keeps (Store.ReadableAt allowed level) (findAmong? c relation links) := by
  induction links with
  | nil => exact Step.keeps_pure _
  | cons link links ih =>
    refine (c.keeps_quintuples _ _).bind fun found => ?_
    cases found with
    | nil => exact ih
    | cons q qs => exact Step.keeps_pure _

theorem keeps_find (c : Session) (relation : Address) (name : String) :
    Keeps (Store.ReadableAt allowed level) (find? c relation name) := by
  refine (Step.keeps_ask _).bind fun _ => ?_
  intro s hs
  exact keeps_findAmong c relation _ s hs

theorem keeps_discard (hc : c.levels.InUse) (a : Address) :
    Keeps (Store.ReadableAt allowed level) (discard c a) := by
  intro s hs
  rw [discard, Step.on_bind, Step.on_get]
  dsimp only
  split
  · refine Keeps.tryCatch ?_ (fun _ => Step.keeps_pure _) s hs
    exact (Session.keeps_erase hc a).bind fun _ => Step.keeps_pure _
  · exact hs

section

variable (hc : c.levels.InUse) (hl : c.levels.read ≤ level)

include hc hl

theorem keeps_complete (relation a : Address) (name : String) (link : Address) :
    Keeps (Store.ReadableAt allowed level) (complete c relation a name link) :=
  (Session.keeps_setContent hc link _).bind fun _ =>
    ((c.makes_connect _ a link).keeps hc hl).bind fun arc =>
      ((c.makes_connect _ relation arc).keeps hc hl).bind fun _ => Step.keeps_pure _

theorem keeps_label (relation a : Address) (name : String) :
    Keeps (Store.ReadableAt allowed level) (label c relation a name) := by
  refine ((c.makes_addLink .const).keeps hc hl).bind fun link => Keeps.tryCatch ?_ fun f => ?_
  · exact keeps_complete hc hl relation a name link
  · exact (keeps_discard hc link).bind fun _ => Step.keeps_throw f

theorem keeps_assign (relation a : Address) (name : String) :
    Keeps (Store.ReadableAt allowed level) (assign c relation a name) := by
  refine (keeps_find c relation name).bind fun found => ?_
  have hgrant : Keeps (Store.ReadableAt allowed level) (grant c relation a name) :=
    (Step.keeps_ask _).bind fun _ => (Step.keeps_ask _).bind fun _ =>
      keeps_label hc hl relation a name
  dsimp only
  split
  · exact (Step.keeps_throw _).bind fun _ => hgrant
  · exact hgrant

theorem keeps_supply {x : Step Store Address} (hx : Keeps (Store.ReadableAt allowed level) x)
    (relation : Address) (name : String) :
    Keeps (Store.ReadableAt allowed level) (supply c relation name x) := by
  refine hx.bind fun a => Keeps.tryCatch ?_ fun f => ?_
  · exact (keeps_assign hc hl relation a name).bind fun _ => Step.keeps_pure _
  · exact (Session.keeps_erase hc a).bind fun _ => Step.keeps_throw f

theorem keeps_resolve (relation : Address) (name : String) (type : ElementType) :
    Keeps (Store.ReadableAt allowed level) (resolve c relation name type) := by
  have helement : Keeps (Store.ReadableAt allowed level) (elementNamed? c relation name) :=
    (keeps_find c relation name).bind fun _ => Step.keeps_pure _
  refine helement.bind fun found => ?_
  cases found with
  | some a => exact Step.keeps_pure _
  | none =>
    dsimp only
    split
    · exact keeps_supply hc hl ((c.makes_addLink type).keeps hc hl) relation name
    · exact keeps_supply hc hl ((c.makes_addNode type).keeps hc hl) relation name

theorem keeps_createRelation :
    Keeps (Store.ReadableAt allowed level) (createRelation c) := by
  refine ((c.makes_addNode _).keeps hc hl).bind fun node => Keeps.tryCatch ?_ fun f => ?_
  · exact (keeps_label hc hl node node relationName).bind fun _ => Step.keeps_pure _
  · exact (keeps_discard hc node).bind fun _ => Step.keeps_throw f

end

end Naming

/-! ## The relation node -/

/-- A relation node is made with a name that it marks itself, or nothing is left of what was made on
the way. -/
theorem Reached.createRelation_cases (h : Reached allowed made s) (hc : c.levels.InUse) :
    (∃ n s', (Naming.createRelation c).on s = (.ok n.element, s') ∧
      Naming.Makes allowed made c n.element (Utf8.encode Naming.relationName) s s' n ∧
      s'.arena.bare? n.element
        = some (Element.bare { type := .constNorole ||| .node, access := c.levels })) ∨
    Naming.Fails allowed s ((Naming.createRelation c).on s) := by
  rw [Naming.createRelation, Step.on_bind]
  rcases h.adds hc (c.makes_addNode .constNorole) with
    ⟨node, s₁, hnode, h₁, hc₁⟩ | ⟨f, s₁, hnode, h₁, ha₁⟩
  swap
  · rw [hnode]
    exact .inr (Naming.fails_of_agrees h₁ ha₁)
  have hx₁ : s.Extends s₁ [node] := (Store.Extends.refl s).createdAlone hc₁ rfl
  rw [hnode]
  dsimp only
  rw [Step.on_tryCatch, Step.on_bind]
  rcases h₁.label_cases (.refl s₁) h₁ hc node node Naming.relationName with
    ⟨n, s₂, hlabel, rfl, hrelation, h₂, hn⟩ | ⟨f, s₂, made', hlabel, h₂, hsame⟩
  · obtain ⟨e, he, -⟩ := hc₁.grown.find?_new
    have hold : n.element ∉ [n.mark, n.arc, n.link] :=
      hn.new.notMem_of_isSome (Option.isSome_of_eq_some he)
    have hcontent : s₁.contents.get? n.element = none := by
      rw [hc₁.contents]
      exact h.atRest.content_of_dead hc₁.grown.fresh
    rw [hlabel]
    refine .inl ⟨n, s₂, rfl,
      ⟨hrelation, h₂, s₁, _, h₁, hx₁, hc₁.bare?_new, rfl, hcontent, hn⟩, ?_⟩
    rw [hn.new.bare _ hold]
    exact hc₁.bare?_new
  · -- the node alone is left, and the session erases it
    have hbegun : s.Begun s₂ [node] node := .alone (hx₁.sameGraph hsame)
    have hwrite : c.MayWrite s₂ node :=
      Store.mayWrite_of_bare ((hsame.bare node).trans hc₁.bare?_new) rfl
    obtain ⟨order, s₃, herase, h₃, hsame₃⟩ := h.withdraws h₂ hc hbegun hwrite
    rw [hlabel]
    dsimp only
    rw [Step.on_bind, Naming.on_discard hwrite herase]
    exact .inr ⟨f, s₃, _, rfl, h₃, hsame₃⟩

theorem Reached.createRelation_makes (h : Reached allowed made s) (hc : c.levels.InUse)
    (hrun : (Naming.createRelation c).on s = (.ok relation, s')) :
    ∃ n, n.element = relation ∧
      Naming.Makes allowed made c relation (Utf8.encode Naming.relationName) s s' n ∧
      s'.arena.bare? relation
        = some (Element.bare { type := .constNorole ||| .node, access := c.levels }) := by
  rcases h.createRelation_cases hc with ⟨n, s₁, hmade, hmakes⟩ | ⟨f, s₁, made', hfails, -⟩
  · obtain ⟨hn, rfl⟩ := Prod.mk.inj (hrun.symm.trans hmade)
    obtain rfl := Except.ok.inj hn
    exact ⟨n, rfl, hmakes⟩
  · cases (Prod.mk.inj (hrun.symm.trans hfails)).1

/-- A relation node that is made where nothing is named is live, and its own name is the only one.
-/
theorem Reached.createRelation_names (h : Reached allowed made s) (hc : c.levels.InUse)
    (hnone : ∀ bytes n, ¬s.Names bytes n)
    (hrun : (Naming.createRelation c).on s = (.ok relation, s')) :
    (s'.arena.find? relation).isSome ∧
      ∃ n, ∀ bytes m, s'.Names bytes m → m = n ∧ bytes = Utf8.encode Naming.relationName := by
  obtain ⟨n, -, hmakes, hbare⟩ := h.createRelation_makes hc hrun
  obtain ⟨e, he, -⟩ := Arena.bare?_eq_some.1 hbare
  refine ⟨Option.isSome_of_eq_some he, n, fun bytes m hm => ?_⟩
  rcases hmakes.names_cases h hm with ⟨hold, -⟩ | hnew
  · exact absurd hold (hnone bytes m)
  · exact hnew

theorem Store.readableAt_ofSettings {settings : Settings} (h : allowed settings) :
    (ofSettings settings).ReadableAt allowed level where
  reached := ⟨[], .fresh h⟩
  access a e he := by simp [ofSettings, Arena.ofLimits, Arena.find?, Arena.slot?] at he

theorem Store.get?_ofSettings (settings : Settings) (a : Address) :
    (ofSettings settings).contents.get? a = none := Std.ExtTreeMap.getElem?_empty

/-- Where nothing is named yet a relation node is made. -/
theorem Naming.on_resolveRelation (c : Session) (settings : Settings) :
    (resolveRelation c).on (.ofSettings settings)
      = (createRelation c).on (.ofSettings settings) := by
  have hfind : c.find (.ofSettings settings) (Utf8.encode relationName) = [] := by
    refine List.eq_nil_iff_forall_not_mem.2 fun a ha => ?_
    have hget : (Store.ofSettings settings).contents.get? a = some (Utf8.encode relationName) :=
      Contents.indexed_empty.mem_find.1 (List.mem_filter.1 ha).1
    rw [Store.get?_ofSettings] at hget
    cases hget
  rw [resolveRelation, Step.on_bind, Step.on_get]
  dsimp only
  rw [hfind]
  rfl

/-- In a memory that is started empty the relation node is live, all elements are of the lowest read
level, and the name of the relation node is the only one. -/
theorem Memory.started_empty {files : FileTree} {settings : Settings} {m : Memory}
    (hempty : openStore files settings = .ok (.ofSettings settings))
    (hstart : start files settings = .ok m) :
    m.store.ReadableAt (· = settings) 0 ∧ (m.store.arena.find? m.relation).isSome ∧
      ∃ n, ∀ bytes k, m.store.Names bytes k →
        k = n ∧ bytes = Utf8.encode Naming.relationName := by
  have h : Reached (· = settings) [] (.ofSettings settings) := .fresh rfl
  have hnone : ∀ bytes n, ¬(Store.ofSettings settings).Names bytes n := by
    intro bytes n hn
    have hget := hn.content
    rw [Store.get?_ofSettings] at hget
    cases hget
  have hreadable : ((Naming.createRelation ⟨.lowest⟩).on (.ofSettings settings)).2.ReadableAt
      (· = settings) 0 :=
    Naming.keeps_createRelation Access.inUse_lowest (UInt8.le_refl _) _
      (Store.readableAt_ofSettings rfl)
  obtain ⟨-, -, hstart⟩ := bind_eq_ok_iff.1 hstart
  obtain ⟨store, hopen, hstart⟩ := bind_eq_ok_iff.1 hstart
  obtain rfl : .ofSettings settings = store := Except.ok.inj (hempty.symm.trans hopen)
  rw [Naming.on_resolveRelation] at hstart
  rcases hrun : (Naming.createRelation ⟨.lowest⟩).on (.ofSettings settings) with ⟨f | relation, s⟩
  · rw [hrun] at hstart
    cases hstart
  · rw [hrun] at hstart hreadable
    obtain rfl := Except.ok.inj hstart
    exact ⟨hreadable, h.createRelation_names Access.inUse_lowest hnone hrun⟩

/-- A memory that is started with room for few elements. -/
def startedMemory : Memory := (Memory.start {} .small).toOption.getD default

theorem start_startedMemory : Memory.start {} .small = .ok startedMemory := by
  have hok : (Memory.start {} .small).isOk = true := by decide +kernel
  rcases hstart : Memory.start {} .small with f | m
  · rw [hstart] at hok
    cases hok
  · rw [startedMemory, hstart]
    rfl

/-- The memory was started empty. -/
theorem started_startedMemory :
    startedMemory.store.ReadableAt (· = .small) 0 ∧
      (startedMemory.store.arena.find? startedMemory.relation).isSome :=
  have h := Memory.started_empty rfl start_startedMemory
  ⟨h.1, h.2.1⟩

end SemanticNet
