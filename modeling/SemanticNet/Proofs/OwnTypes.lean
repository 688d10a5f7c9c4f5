import SemanticNet.Proofs.Origins

/-!
# Types that narrow to themselves

A type narrows to itself when it has no bit that is foreign to its kind (`narrowsTo_self_iff`), and
whatever a type is narrowed to does so too. The types of connectors are checked for foreign bits
when they are made; those of nodes and links are not. Their only foreign bits are the two of
actuality, and an element that was made with one of them can never be narrowed, not even to the
type that it has (`Ran.narrows_itself`).
-/

namespace SemanticNet

namespace ElementType

variable {t s m u : ElementType}

/-- The bits that a type of the kind of `t` may have. Without a kind it may have all. -/
def ownBits (t : ElementType) : ElementType :=
  if t.isNode then node ||| constancyBits ||| nodeBits
  else if t.isMembershipArc then
    membershipArc ||| constancyBits ||| positivityBits ||| permanencyBits ||| actualityBits
  else if t.isConnector then t.kind ||| constancyBits
  else ~~~unknown

theorem ownBits_of_kind (h : s.kind = t.kind) : s.ownBits = t.ownBits := by
  have hnode : s.isNode = t.isNode := hasAny_of_kind h rfl
  have harc : s.isMembershipArc = t.isMembershipArc := hasAny_of_kind h rfl
  have hconnector : s.isConnector = t.isConnector := hasAny_of_kind h rfl
  rw [ownBits, hnode, harc, hconnector, h, ownBits]

theorem within_all : t.within (~~~unknown) = true := by
  have hnone : ~~~(~~~unknown) = unknown := rfl
  rw [within, hnone, and_unknown]
  rfl

/-- What a type narrows to has no foreign bit. -/
theorem within_of_narrowsTo (h : t.narrowsTo m = true) : m.within t.ownBits = true := by
  simp only [narrowsTo, Bool.and_eq_true] at h
  obtain ⟨-, hrest⟩ := h
  unfold ownBits
  split at hrest
  next hn =>
    rw [if_pos hn]
    exact ((Bool.and_eq_true _ _).mp hrest).1
  next hn =>
    rw [if_neg hn]
    split at hrest
    next ha =>
      rw [if_pos ha]
      simp only [Bool.and_eq_true] at hrest
      exact hrest.1.1.1
    next ha =>
      rw [if_neg ha]
      split at hrest
      next hc =>
        rw [if_pos hc]
        exact hrest
      next hc =>
        rw [if_neg hc]
        exact within_all

/-- A type agrees with itself on every group, so only foreign bits matter. -/
theorem narrowsTo_self_iff : t.narrowsTo t = true ↔ t.within t.ownBits = true := by
  constructor
  · exact within_of_narrowsTo
  · intro h
    unfold ownBits at h
    simp only [narrowsTo, agreesOn_self, Bool.and_true, Bool.true_and]
    split at h
    next hn =>
      rw [if_pos hn]
      exact h
    next hn =>
      rw [if_neg hn]
      split at h
      next ha =>
        rw [if_pos ha]
        exact h
      next ha =>
        rw [if_neg ha]
        split at h
        next hc =>
          rw [if_pos hc]
          exact h
        next hc => rw [if_neg hc]

/-- What a type narrows to narrows to itself. -/
theorem narrowsTo_self_of_narrowsTo (h : t.narrowsTo m = true) (hk : t.kind.isUnknown = false) :
    m.narrowsTo m = true := by
  have hkind := kind_of_narrowsTo h hk
  rw [narrowsTo_self_iff, ownBits_of_kind hkind]
  exact within_of_narrowsTo h

/-- A part of what lies within `allowed` lies within it. -/
theorem within_of_hasAll (h : u.hasAll t = true) (hu : u.within m = true) : t.within m = true := by
  have hout : u &&& ~~~m = unknown := isUnknown_iff.1 hu
  have hpart : t &&& ~~~m = unknown := by
    calc t &&& ~~~m = u &&& t &&& ~~~m := by rw [and_of_hasAll h]
      _ = t &&& (u &&& ~~~m) := by rw [← and_assoc, and_comm (t := t)]
      _ = unknown := by rw [hout, and_unknown]
  exact isUnknown_iff.2 hpart

/-- Adding bits neither mends nor spoils a type: one with foreign bits can not be narrowed. -/
theorem narrowsTo_self_of_narrow? (h : t.narrow? s = some m) : t.narrowsTo t = true := by
  obtain ⟨rfl, -, hnarrows⟩ := narrow?_eq_some_iff.1 h
  rw [narrowsTo_self_iff]
  exact within_of_hasAll (hasAll_of_or or_or_self) (within_of_narrowsTo hnarrows)

theorem Becomes.narrowsTo_self_iff (h : t.Becomes u) (hk : t.kind.isUnknown = false) :
    u.narrowsTo u = true ↔ t.narrowsTo t = true := by
  rcases h with rfl | h
  · exact Iff.rfl
  · have hu := narrowsTo_self_of_narrowsTo (narrow?_eq_some_iff.1 h).2.2 hk
    exact iff_of_true hu (narrowsTo_self_of_narrow? h)

/-- The bits foreign to nodes are those of connectors and those of actuality. -/
theorem narrowsTo_self_node_iff (hk : t.kind = node) :
    t.narrowsTo t = true ↔ t.hasAny actualityBits = false := by
  have hnode : t.isNode = true := by
    rw [isNode, ← hasAny_kind rfl, hk]
    rfl
  have hconnector : t &&& connectorBits = unknown := by
    rw [← hasAny_eq_false_iff, ← hasAny_kind rfl, hk]
    rfl
  have hforeign : ~~~(node ||| constancyBits ||| nodeBits) = connectorBits ||| actualityBits := rfl
  have hout : t &&& ~~~t.ownBits = t &&& actualityBits := by
    rw [ownBits, if_pos hnode, hforeign, and_or_distrib, hconnector, or_comm]
    exact ext_bits UInt16.or_zero
  rw [ElementType.narrowsTo_self_iff, within, hout, isUnknown_iff, hasAny_eq_false_iff]

/-- To narrow a type by itself adds nothing. -/
theorem narrow?_own (h : t.narrowsTo t = true) : t.narrow? t = some t :=
  narrow?_eq_some_iff.2 ⟨or_self.symm, rfl, h⟩

theorem narrow?_eq_none (h : t.narrowsTo t = false) (s : ElementType) : t.narrow? s = none := by
  cases hm : t.narrow? s with
  | none => rfl
  | some m =>
    rw [narrowsTo_self_of_narrow? hm] at h
    cases h

end ElementType

namespace Action

/-- A node or a link is made with a bit that no node may have. -/
def Strays : Action → Prop
  | addNode type _ | addLink type _ => type.hasAny .actualityBits = true
  | connect _ _ _ _ | erase _ | narrow _ _ | setAccess _ _ | setContent _ _ | commit _ => False

variable {k : Action} {e : Element}

/-- The type that an element is made with narrows to itself unless it was made with such a bit. -/
theorem narrowsTo_self_of_typed (hk : k.element? = some e) (htyped : k.Typed) :
    e.type.narrowsTo e.type = true ↔ ¬k.Strays := by
  have hmarked : ∀ {type mark : ElementType}, type.isConnector = false →
      mark &&& .kindBits = .node → mark &&& .actualityBits = .unknown →
      ((type ||| mark).narrowsTo (type ||| mark) = true ↔
        ¬type.hasAny .actualityBits = true) := by
    intro type mark hcon hkind hmark
    rw [ElementType.narrowsTo_self_node_iff (ElementType.kind_or_mark hcon hkind),
      ElementType.hasAny_or hmark, Bool.not_eq_true]
  cases k with
  | addNode type access =>
    obtain rfl := Option.some.inj hk
    exact hmarked htyped.1 rfl rfl
  | addLink type access =>
    obtain rfl := Option.some.inj hk
    exact hmarked htyped.1 rfl rfl
  | connect type source target access =>
    obtain rfl := Option.some.inj hk
    refine iff_of_true ?_ id
    have hkind : type.kind.kind = type.kind := by
      rw [ElementType.kind, ElementType.kind, ElementType.and_assoc, ElementType.and_self]
    refine ElementType.narrowsTo_self_of_narrowsTo htyped.2 ?_
    rw [hkind]
    exact ElementType.kind_ne_of_hasAny (m := .connectorBits) rfl
      (ElementType.isConnector_of_isConnectorKind htyped.1)
  | erase _ | narrow _ _ | setAccess _ _ | setContent _ _ | commit _ => cases hk

end Action

namespace Store

variable {s : Store} {a : Address} {e : Element} {made : List Address}

/-- Narrowing an element by its own type changes nothing, not even a count. -/
theorem AtRest.narrow_own (h : s.AtRest made) (he : s.arena.find? a = some e)
    (hself : e.type.narrowsTo e.type = true) : (Store.narrow a e.type).on s = (.ok (), s) := by
  have hnarrowed : s.narrowed a e.type = .ok e.type :=
    narrowed_ok_iff.2 ⟨e, he, ElementType.narrow?_own hself⟩
  have htidy := h.sound.tidy
  have hsame : s.arena.update a ({ · with type := e.type }) = s.arena := by
    rw [htidy.update_eq_map]
    refine htidy.map_eq_self fun b e' he' => ?_
    split
    next hab =>
      subst hab
      obtain rfl := Option.some.inj (he.symm.trans he')
      rfl
    next => rfl
  rw [Store.narrow, Step.on_bind, Step.on_ask, hnarrowed]
  dsimp only
  rw [on_alter he, hsame]

/-- An element whose type has foreign bits is never narrowed. -/
theorem narrow_foreign (he : s.arena.find? a = some e) (hself : e.type.narrowsTo e.type = false)
    (type : ElementType) : (narrow a type).on s = (.error (.invalidType .notNarrower), s) := by
  rw [narrow, Step.on_bind, Step.on_ask, narrowed_of_find? he, ElementType.narrow?_eq_none hself]

/-- How the element at `a`, of type `t` and made by `k`, takes being narrowed by its own type. -/
structure NarrowsItself (s : Store) (k : Action) (a : Address) (t : ElementType) : Prop where
  narrowsTo_iff : t.narrowsTo t = true ↔ ¬k.Strays
  narrow : ¬k.Strays → (Store.narrow a t).on s = (.ok (), s)
  refused : k.Strays → ∀ type, (Store.narrow a type).on s = (.error (.invalidType .notNarrower), s)

end Store

namespace Ran

variable {allowed : Settings → Prop} {log : List LogEntry} {s : Store}

/-- Whatever was done, the type of a live element narrows to itself unless the element is a node or
a link that was made with a bit of actuality. Then narrowing it by its own type succeeds and leaves
the store exactly as it is. The others are refused that and every other narrowing. So when nothing
is made with such a bit, all live elements can be narrowed to what they are. -/
theorem narrows_itself (h : Ran allowed log s) :
    (∀ a e, s.arena.find? a = some e →
      ∃ k, makerOf a log = some k ∧ s.NarrowsItself k a e.type) ∧
    ((∀ entry ∈ log, ¬entry.1.Strays) → ∀ a e, s.arena.find? a = some e →
      e.type.narrowsTo e.type = true ∧ (Store.narrow a e.type).on s = (.ok (), s)) := by
  have hmakers : ∀ a e, s.arena.find? a = some e →
      ∃ k, makerOf a log = some k ∧ s.NarrowsItself k a e.type := by
    intro a e he
    obtain ⟨k, e₀, hmaker, hk, htyped, hbecomes⟩ := h.exists_maker_becomes he
    have hkind := (Action.clear_of_typed hk htyped).kind
    have hiff : e.type.narrowsTo e.type = true ↔ ¬k.Strays :=
      (hbecomes.narrowsTo_self_iff hkind).trans (Action.narrowsTo_self_of_typed hk htyped)
    refine ⟨k, hmaker, hiff, fun hstays => ?_, fun hstrays type => ?_⟩
    · exact h.reached.atRest.narrow_own he (hiff.2 hstays)
    · refine Store.narrow_foreign he ?_ type
      rw [← Bool.not_eq_true, hiff]
      exact not_not_intro hstrays
  refine ⟨hmakers, fun hlog a e he => ?_⟩
  obtain ⟨k, hmaker, hnarrows⟩ := hmakers a e he
  obtain ⟨entry, hentry, rfl⟩ := Option.map_eq_some_iff.1 hmaker
  have hstays := hlog entry (List.mem_of_find?_eq_some hentry)
  exact ⟨hnarrows.narrowsTo_iff.2 hstays, hnarrows.narrow hstays⟩

end Ran

/-- A node with a bit of actuality, a link, and an arc between the two. -/
def strayActions : List Action :=
  [.addNode ⟨0x4000⟩ .lowest, .addLink .const .lowest,
    .connect (.membershipArc ||| ⟨0x4000⟩) ⟨1, 1⟩ ⟨1, 2⟩ .lowest]

def strayStore : Store := (Action.runAll strayActions (.ofSettings .small)).2

def strayLog : List LogEntry :=
  (strayActions.zip [.ok (.made ⟨1, 1⟩), .ok (.made ⟨1, 2⟩), .ok (.made ⟨1, 3⟩)]).reverse

theorem ran_strayStore : Ran (· = .small) strayLog strayStore := by
  have hadmissible : ∀ k ∈ strayActions, k.Admissible := by
    simp [strayActions, Action.Admissible, Access.inUse_lowest]
  have hstaged : ∀ k ∈ strayActions, k.StagedByRecording := by
    simp [strayActions, Action.StagedByRecording]
  have hanswers : (Action.runAll strayActions (.ofSettings .small)).1
      = [.ok (.made ⟨1, 1⟩), .ok (.made ⟨1, 2⟩), .ok (.made ⟨1, 3⟩)] := by
    decide +kernel
  have h := (@Ran.fresh (· = .small) _ rfl).runAll hadmissible hstaged
  rw [hanswers, List.append_nil] at h
  exact h

/-- The bit of actuality is foreign to the node and belongs to the arc, so the arc can be narrowed
by its own type, and the node can not. -/
theorem Ran.narrows_itself_strayStore : Ran (· = .small) strayLog strayStore ∧
    (∃ e, strayStore.arena.find? ⟨1, 3⟩ = some e ∧ e.type.narrowsTo e.type = true ∧
      (Store.narrow ⟨1, 3⟩ e.type).on strayStore = (.ok (), strayStore)) ∧
    ∃ e, strayStore.arena.find? ⟨1, 1⟩ = some e ∧ e.type.narrowsTo e.type = false := by
  have hnarrows := ran_strayStore.narrows_itself.1
  have hlive : (strayStore.arena.find? ⟨1, 3⟩).isSome ∧ (strayStore.arena.find? ⟨1, 1⟩).isSome := by
    decide +kernel
  obtain ⟨arc, harc⟩ := Option.isSome_iff_exists.1 hlive.1
  obtain ⟨node, hnode⟩ := Option.isSome_iff_exists.1 hlive.2
  refine ⟨ran_strayStore, ⟨arc, harc, ?_⟩, node, hnode, ?_⟩
  · obtain ⟨k, hmaker, hk⟩ := hnarrows ⟨1, 3⟩ arc harc
    obtain rfl : Action.connect (.membershipArc ||| ⟨0x4000⟩) ⟨1, 1⟩ ⟨1, 2⟩ .lowest = k :=
      Option.some.inj hmaker
    exact ⟨hk.narrowsTo_iff.2 id, hk.narrow id⟩
  · obtain ⟨k, hmaker, hk⟩ := hnarrows ⟨1, 1⟩ node hnode
    obtain rfl : Action.addNode ⟨0x4000⟩ .lowest = k := Option.some.inj hmaker
    have hstrays : ElementType.hasAny ⟨0x4000⟩ .actualityBits = true := by decide
    rw [← Bool.not_eq_true, hk.narrowsTo_iff]
    exact not_not_intro hstrays

/-- A node is made whose type does not narrow to itself, and narrowing it by its own type fails. -/
theorem own_type_refused : Ran (· = .small) strayLog strayStore ∧
    (strayStore.arena.find? ⟨1, 1⟩).map (·.type) = some ⟨0x4001⟩ ∧
    ElementType.narrowsTo ⟨0x4001⟩ ⟨0x4001⟩ = false ∧
    ((Store.narrow ⟨1, 1⟩ ⟨0x4001⟩).on strayStore).1 = .error (.invalidType .notNarrower) := by
  refine ⟨ran_strayStore, ?_, ?_, ?_⟩ <;> decide +kernel

end SemanticNet
