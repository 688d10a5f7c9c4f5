import SemanticNet.Proofs.Holding
import SemanticNet.Proofs.Lifetimes

/-!
# Where elements come from

Every live element was made by the last operation that answered with its address (`makerOf`), and
its kind, and whether it is a link, are still what that operation gave it (`Ran.origins`). What
`addLink` makes are links; what `addNode` makes are links as well when the type that it is called
with has the link mark but not the bit of a node.
-/

namespace SemanticNet

namespace ElementType

variable {t : ElementType}

/-- The bit that tells a link from other nodes. -/
def linkMark : ElementType := ⟨0x2⟩

theorem and_linkMark (t : ElementType) :
    t &&& linkMark = linkMark ∨ t &&& linkMark = unknown := by
  have hbit := BitVec.and_twoPow t.bits.toBitVec 1
  split at hbit
  · exact .inl (ext_bits (UInt16.toBitVec_inj.1 hbit))
  · exact .inr (ext_bits (UInt16.toBitVec_inj.1 hbit))

/-- With the bit of a node the link mark makes a link. -/
theorem isLink_or_node : (t ||| node).isLink = t.hasAny linkMark := by
  have hlink : (t ||| node) &&& link = t &&& linkMark ||| node := by
    calc (t ||| node) &&& link = t &&& (linkMark ||| node) ||| node := or_and_distrib
      _ = t &&& linkMark ||| node := by rw [and_or_distrib, or_assoc, and_or_self]
  rcases t.and_linkMark with hmark | hmark
  · rw [isLink, hasAll, hlink, hasAny, hmark]
    rfl
  · rw [isLink, hasAll, hlink, hasAny, hmark]
    rfl

theorem isLink_or_link : (t ||| link).isLink = true := hasAll_of_or or_or_self

/-- The bit of a node is all that is added to the kind of a type. -/
theorem kind_or_mark {mark : ElementType} (hcon : t.isConnector = false)
    (hmark : mark &&& kindBits = node) : (t ||| mark).kind = node := by
  calc (t ||| mark).kind = t.kind ||| node := by
        rw [kind, or_and_distrib, hmark, kind]
    _ = t &&& node ||| node := by
        rw [kind_eq_or, hasAny_eq_false_iff.1 hcon, or_assoc]
        rfl
    _ = node := and_or_self

theorem isLink_of_isConnectorKind (h : t.kind.isConnectorKind = true) : t.isLink = false := by
  refine isLink_eq_false ?_
  rw [isNode, ← hasAny_kind rfl]
  rcases isConnectorKind_iff.1 h with hk | hk | hk <;> rw [hk] <;> rfl

end ElementType

namespace Action

/-- What makes links: `addLink`, and `addNode` with a type that has the link mark. -/
def MakesLinks : Action → Prop
  | addNode type _ => type.hasAny .linkMark = true
  | addLink _ _ => True
  | connect _ _ _ _ | erase _ | narrow _ _ | setAccess _ _ | setContent _ _ | commit _ => False

/-- No node is made with the link mark. -/
def Unmarked : Action → Prop
  | addNode type _ => type.hasAny .linkMark = false
  | addLink _ _ | connect _ _ _ _ | erase _ | narrow _ _ | setAccess _ _ | setContent _ _
  | commit _ => True

/-- The kinds of what an operation makes: that of a node has no connector bit, and that of a
connector has exactly one, and no bit of a node. -/
def GivesKind : Action → ElementType → Prop
  | addNode _ _, kind | addLink _ _, kind => kind = .node
  | connect _ _ _ _, kind => kind.isConnectorKind = true
  | erase _, _ | narrow _ _, _ | setAccess _ _, _ | setContent _ _, _ | commit _, _ => False

/-- Elements of a type are what the operation makes. -/
structure Shapes (k : Action) (t : ElementType) : Prop where
  kind : k.GivesKind t.kind
  isLink : t.isLink = true ↔ k.MakesLinks

variable {k : Action} {t u : ElementType} {e : Element}

theorem Shapes.of_mould (h : k.Shapes t) (hu : u.mould = t.mould) : k.Shapes u where
  kind := ElementType.kind_of_mould hu ▸ h.kind
  isLink := ElementType.isLink_of_mould hu ▸ h.isLink

/-- An element is of the kind of the operation that makes it. -/
theorem shapes_of_typed (hk : k.element? = some e) (htyped : k.Typed) : k.Shapes e.type := by
  cases k with
  | addNode type access =>
    obtain rfl := Option.some.inj hk
    refine ⟨ElementType.kind_or_mark htyped.1 rfl, ?_⟩
    show (type ||| .node).isLink = true ↔ _
    rw [ElementType.isLink_or_node]
    rfl
  | addLink type access =>
    obtain rfl := Option.some.inj hk
    exact ⟨ElementType.kind_or_mark htyped.1 rfl,
      iff_of_true ElementType.isLink_or_link trivial⟩
  | connect type source target access =>
    obtain rfl := Option.some.inj hk
    refine ⟨htyped.1, iff_of_false ?_ id⟩
    rw [ElementType.isLink_of_isConnectorKind htyped.1]
    exact Bool.false_ne_true
  | erase _ | narrow _ _ | setAccess _ _ | setContent _ _ | commit _ => cases hk

end Action

/-- The last operation that answered that it had made what is at `a`. The last operation comes
first. -/
def makerOf (a : Address) (log : List LogEntry) : Option Action :=
  (log.find? fun entry => entry.2 = .ok (.made a)).map Prod.fst

namespace Action

variable {s : Store} {made : List Address} {k : Action} {a : Address} {e : Element}

/-- Only creations answer with an address. -/
theorem exists_element?_of_made (hmade : (k.run.on s).1 = .ok (.made a)) :
    ∃ e, k.element? = some e := by
  have hdone : ∀ {α : Type} {x : Step Store α} {g : α → Answer}, (∀ v, g v ≠ .made a) →
      ((g <$> x).on s).1 ≠ .ok (.made a) := by
    intro α x g hg
    rw [Step.on_map]
    cases (x.on s).1 with
    | error f => simp [Except.map]
    | ok v => simpa [Except.map] using hg v
  cases k with
  | addNode | addLink | connect => exact ⟨_, rfl⟩
  | erase | narrow | setAccess | setContent | commit =>
    exact absurd hmade (hdone fun v => by simp)

/-- What was made has the type that the operation gives it. -/
theorem typed_of_made (h : s.AtRest made) (hmade : (k.run.on s).1 = .ok (.made a))
    (he : (k.run.on s).2.arena.find? a = some e) :
    ∃ e₀, k.element? = some e₀ ∧ k.Typed ∧ e.type = e₀.type := by
  obtain ⟨e₀, hk⟩ := exists_element?_of_made hmade
  have hfills := (h.settles hk).fills a hmade
  obtain ⟨e', he', hbare⟩ := Arena.bare?_eq_some.1 hfills.new
  obtain rfl := Option.some.inj (he.symm.trans he')
  have htype : e.type = e₀.type := congrArg (·.type) hbare
  rcases creation_cases s hk with ⟨f, hrun⟩ | ⟨htyped, -⟩
  · rw [hrun] at hmade
    cases hmade
  · exact ⟨e₀, hk, htyped, htype⟩

/-- What is live and was not made just now was live before, and has become what it is. -/
theorem becomes_of_stays (hk : k.Admissible) (h : s.AtRest made)
    (hnew : (k.run.on s).1 ≠ .ok (.made a)) (he : (k.run.on s).2.arena.find? a = some e) :
    ∃ e₀, s.arena.find? a = some e₀ ∧ e₀.nature.Becomes e.nature := by
  cases hbefore : s.arena.find? a with
  | none =>
    rw [find?_run_eq_none hk h hbefore hnew] at he
    cases he
  | some e₀ =>
    have hstay : ∀ as, (k.run.on s).1 = .ok (.erased as) → a ∉ as := by
      intro as has hmem
      rw [(erased_cases hk h has hmem).2] at he
      cases he
    obtain ⟨n, hn, hbecomes⟩ := k.keeping h a _ (Arena.nature?_of_find? hbefore) hstay
    obtain rfl := Option.some.inj ((Arena.nature?_of_find? he).symm.trans hn)
    exact ⟨e₀, rfl, hbecomes⟩

end Action

/-- Every live element has a maker and is of its kind, and only links have contents. -/
structure Store.Traced (s : Store) (log : List LogEntry) : Prop where
  maker : ∀ a e, s.arena.find? a = some e → ∃ k, makerOf a log = some k ∧ k.Shapes e.type
  content : ∀ a, (s.contents.get? a).isSome → ∃ k, makerOf a log = some k ∧ k.MakesLinks

/-- While no node is made with the link mark, the links are what was made as links. -/
theorem Store.Traced.isLink_iff {s : Store} {log : List LogEntry} {a : Address} {e : Element}
    (h : s.Traced log) (hlog : ∀ entry ∈ log, entry.1.Unmarked)
    (he : s.arena.find? a = some e) :
    e.type.isLink = true ↔ ∃ type access, makerOf a log = some (.addLink type access) := by
  obtain ⟨k, hmaker, hshapes⟩ := h.maker a e he
  rw [hshapes.isLink, hmaker]
  constructor
  · intro hk
    obtain ⟨entry, hentry, rfl⟩ := Option.map_eq_some_iff.1 hmaker
    have hunmarked := hlog entry (List.mem_of_find?_eq_some hentry)
    cases hop : entry.1 with
    | addNode type access =>
      rw [hop] at hk hunmarked
      cases hunmarked.symm.trans hk
    | addLink type access => exact ⟨type, access, rfl⟩
    | connect | erase | narrow | setAccess | setContent | commit =>
      rw [hop] at hk
      exact hk.elim
  · rintro ⟨type, access, hk⟩
    obtain rfl := Option.some.inj hk
    trivial

namespace Ran

variable {allowed : Settings → Prop} {log : List LogEntry} {s : Store}

/-- The type of a live element is what the operation that made it gave it, or was narrowed from
that. -/
theorem exists_maker_becomes (h : Ran allowed log s) {a : Address} {e : Element}
    (he : s.arena.find? a = some e) : ∃ k e₀, makerOf a log = some k ∧
      k.element? = some e₀ ∧ k.Typed ∧ e₀.type.Becomes e.type := by
  induction h generalizing e with
  | fresh hc => simp [Store.ofSettings, Arena.ofLimits, Arena.find?, Arena.slot?] at he
  | @act log s k hk hstaged h ih =>
    have hrest := h.reached.atRest
    by_cases hmade : (k.run.on s).1 = .ok (.made a)
    · obtain ⟨e₀, hk₀, htyped, htype⟩ := Action.typed_of_made hrest hmade he
      refine ⟨k, e₀, ?_, hk₀, htyped, .inl htype⟩
      rw [makerOf, List.find?_cons_of_pos (by simpa using hmade)]
      rfl
    · obtain ⟨e₁, he₁, hbecomes⟩ := Action.becomes_of_stays hk hrest hmade he
      obtain ⟨k₀, e₀, hmaker, hk₀, htyped, hbefore⟩ := ih he₁
      refine ⟨k₀, e₀, ?_, hk₀, htyped, hbefore.trans hbecomes.type⟩
      rw [makerOf, List.find?_cons_of_neg (by simpa using hmade)]
      exact hmaker
  | counted m _ ih => exact ih he
  | @loaded log s s' c y check hc h hload ih =>
    obtain ⟨contents, rfl, -⟩ := Dump.restored_of_decode h.reached.atRest hload
    rw [Dump.find?_restored] at he
    exact ih he

theorem exists_maker (h : Ran allowed log s) {a : Address} {e : Element}
    (he : s.arena.find? a = some e) : ∃ k, makerOf a log = some k ∧ k.Shapes e.type := by
  obtain ⟨k, e₀, hmaker, hk, htyped, hbecomes⟩ := h.exists_maker_becomes he
  have hkind := (Action.clear_of_typed hk htyped).kind
  exact ⟨k, hmaker, (Action.shapes_of_typed hk htyped).of_mould (hbecomes.mould hkind)⟩

theorem traced (h : Ran allowed log s) : s.Traced log where
  maker a e he := h.exists_maker he
  content a ha := by
    have hlink := h.reached.atRest.sound.contents a ha
    obtain ⟨e, he, hislink⟩ := (Option.any_eq_true _ _).1 hlink
    obtain ⟨k, hmaker, hshapes⟩ := h.exists_maker he
    exact ⟨k, hmaker, hshapes.isLink.1 hislink⟩

/-- Whatever was done, each element that is live is of the kind of the operation that made it, and
it is a link just when that operation makes links; only such elements have contents. So the links
are what `addLink` made, unless a node was made with the link mark. -/
theorem origins (h : Ran allowed log s) :
    s.Traced log ∧ ((∀ entry ∈ log, entry.1.Unmarked) → ∀ a e, s.arena.find? a = some e →
      (e.type.isLink = true ↔ ∃ type access, makerOf a log = some (.addLink type access))) :=
  ⟨h.traced, fun hlog _ _ he => h.traced.isLink_iff hlog he⟩

/-- In the sample one element is a link, and `addLink` made it. -/
theorem origins_sampleStore : ∃ log, Ran (· = .small) log sampleStore ∧
    (∀ entry ∈ log, entry.1.Unmarked) ∧ sampleStore.Traced log ∧
    sampleStore.arena.isLinkAt ⟨1, 3⟩ = true ∧
    ∃ type access, makerOf ⟨1, 3⟩ log = some (.addLink type access) := by
  have hadmissible : ∀ k ∈ sampleActions, k.Admissible := by
    simp [sampleActions, Action.Admissible, Access.inUse_lowest, Access.inUse_highest]
  have hstaged : ∀ k ∈ sampleActions, k.StagedByRecording := by
    simp [sampleActions, Action.StagedByRecording]
  have hunmarked : ∀ k ∈ sampleActions, k.Unmarked := by
    simp [sampleActions, Action.Unmarked]
    decide
  have hran : Ran (· = .small) _ sampleStore :=
    (@Ran.fresh (· = .small) _ rfl).runAll hadmissible hstaged
  have hlog : ∀ entry ∈ (sampleActions.zip
      (Action.runAll sampleActions (.ofSettings .small)).1).reverse ++ [], entry.1.Unmarked := by
    intro entry hentry
    rw [List.append_nil, List.mem_reverse] at hentry
    exact hunmarked entry.1 (List.of_mem_zip hentry).1
  have hlink : sampleStore.arena.isLinkAt ⟨1, 3⟩ = true := by decide +kernel
  obtain ⟨e, he, hislink⟩ := (Option.any_eq_true _ _).1 hlink
  obtain ⟨htraced, hlinks⟩ := hran.origins
  exact ⟨_, hran, hlog, htraced, hlink, (hlinks hlog _ e he).1 hislink⟩

end Ran

/-- A node is made with the link mark, and it is given a content. -/
def markedActions : List Action :=
  [.addNode .linkMark .lowest, .setContent ⟨1, 1⟩ [7]]

def markedStore : Store := (Action.runAll markedActions (.ofSettings .small)).2

/-- An element that `addNode` made is a link and has a content. -/
theorem content_without_addLink : ∃ log, Ran (· = .small) log markedStore ∧
    makerOf ⟨1, 1⟩ log = some (.addNode .linkMark .lowest) ∧
    markedStore.arena.isLinkAt ⟨1, 1⟩ = true ∧ markedStore.contents.get? ⟨1, 1⟩ = some [7] := by
  have hadmissible : ∀ k ∈ markedActions, k.Admissible := by
    simp [markedActions, Action.Admissible, Access.inUse_lowest]
  have hstaged : ∀ k ∈ markedActions, k.StagedByRecording := by
    simp [markedActions, Action.StagedByRecording]
  have hanswers : (Action.runAll markedActions (.ofSettings .small)).1
      = [.ok (.made ⟨1, 1⟩), .ok .done] := by
    decide +kernel
  refine ⟨_, (@Ran.fresh (· = .small) _ rfl).runAll hadmissible hstaged, ?_, ?_, ?_⟩
  · rw [hanswers]
    rfl
  · decide +kernel
  · decide +kernel

end SemanticNet
