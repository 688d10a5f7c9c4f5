import Mathlib.Logic.Basic
import SemanticNet.Proofs.Restoration

/-!
# Occupancy

In a segment of a store that is reached every engaged slot is either live or on the free chain
(`Segment.Divided`). So a creation finds a slot that is not live and stores its element there, and
no other slot changes, until as many segments are engaged as there may be and each slot of each is
live (`Arena.Full`): then it is refused.
-/

namespace SemanticNet

namespace Segment

variable {s : Segment} {o : UInt16} {capacity : Nat}

/-- The engaged slots are those with offsets from 1 to `slots.size`. Each of them is live or on the
free chain, never both, and the chain goes through its offsets once and ends at 0. -/
structure Divided (s : Segment) (capacity : Nat) : Prop where
  size_le : s.slots.size ≤ capacity
  split : ∃ os, s.Chained s.freeHead os ∧ (s.chain capacity).map Prod.fst = os ∧ os.Nodup ∧
    ∀ o : UInt16, 0 < o.toNat ∧ o.toNat ≤ s.slots.size ↔
      Xor (o ∈ os) (∃ e, s.slot? o = some (.live e))
  beyond : ∀ o : UInt16, s.slots.size < o.toNat → s.slot? o = none
  live : s.live = s.slots.countP (·.isLive)

theorem isSome_slot?_iff : (s.slot? o).isSome ↔ 0 < o.toNat ∧ o.toNat ≤ s.slots.size := by
  have hzero : o = 0 ↔ o.toNat = 0 := UInt16.toNat_inj.symm
  rw [slot?]
  split
  next h0 => simp [hzero.1 h0]
  next h0 =>
    have hpos : o.toNat ≠ 0 := fun h => h0 (hzero.2 h)
    rw [isSome_getElem?]
    omega

/-- A slot is free just when it is on the free chain. -/
theorem Chained.mem_iff {os : List UInt16} (hos : s.Chained s.freeHead os)
    (hall : ∀ o, (s.next? o).isSome → o ∈ os) : o ∈ os ↔ ∃ n, s.slot? o = some (.free n) := by
  simp only [slot?_eq_free_iff, ← Option.isSome_iff_exists]
  exact ⟨fun ho => hos.next_isSome ho, hall o⟩

/-- The slots of a sound segment are divided. -/
theorem Sound.divided (h : s.Sound capacity) : s.Divided capacity := by
  obtain ⟨os, hos, hd, hall⟩ := h.chain
  have hlen := hos.length_le hd
  have hsize := h.size_le
  refine ⟨hsize, ⟨os, hos, (chainFrom_spec (capacity + 1) hos (by omega)).1, hd, fun o => ?_⟩,
    fun o ho => ?_, h.live_eq⟩
  · rw [← isSome_slot?_iff, hos.mem_iff hall]
    rcases s.slot? o with - | (n | e) <;> simp [Xor]
  · rw [← Option.not_isSome_iff_eq_none, isSome_slot?_iff]
    omega

/-- A sound segment has no room just when all of its slots are live. -/
theorem Sound.hasRoom_eq_false_iff (h : s.Sound capacity) (hc : capacity ≤ 65535) :
    s.hasRoom capacity = false ↔
      ∀ o : UInt16, 0 < o.toNat → o.toNat ≤ capacity → ∃ e, s.slot? o = some (.live e) := by
  obtain ⟨os, hos, -, hall⟩ := h.chain
  have hsize := h.size_le
  constructor
  · intro hroom o hpos hle
    obtain ⟨hhead, hfull⟩ : s.freeHead = 0 ∧ capacity ≤ s.slots.size := by
      simpa [hasRoom] using hroom
    obtain ⟨x, hx⟩ := Option.isSome_iff_exists.1 (isSome_slot?_iff.2 ⟨hpos, hle.trans hfull⟩)
    cases x with
    | live e => exact ⟨e, hx⟩
    | free n =>
      -- the chain is empty, as its head is 0
      have hmem := (hos.mem_iff hall).2 ⟨n, hx⟩
      cases os with
      | nil => simp at hmem
      | cons a os =>
        obtain ⟨m, hm⟩ := Option.isSome_iff_exists.1 (hos.next_isSome List.mem_cons_self)
        exact absurd (hos.1.symm.trans hhead) (ne_zero_of_next? hm)
  · intro hlive
    by_contra hroom
    rcases h.vacancy?_cases hc with ⟨n, hn, -⟩ | ⟨o, -, hlt, ho, -⟩ | ⟨hhead, hfull, -⟩
    · have hfree := slot?_eq_free_iff.2 hn
      obtain ⟨hpos, hle⟩ := isSome_slot?_iff.1 (Option.isSome_of_eq_some hfree)
      obtain ⟨e, he⟩ := hlive s.freeHead hpos (by omega)
      simp [hfree] at he
    · obtain ⟨e, he⟩ := hlive o (by omega) (by omega)
      have := (isSome_slot?_iff.1 (Option.isSome_of_eq_some he)).2
      omega
    · simp [hasRoom, hhead, hfull] at hroom

end Segment

namespace Arena

variable {t t' : Arena} {a : Address} {e : Element}

/-- As many segments are engaged as there may be, and every slot of each is live. -/
def Full (t : Arena) : Prop :=
  t.segments.size = t.maxSegments ∧ ∀ (i : Nat) (s : Segment), t.segments[i]? = some s →
    ∀ o : UInt16, 0 < o.toNat → o.toNat ≤ t.capacity → ∃ e, s.slot? o = some (.live e)

theorem Tidy.full_iff (h : t.Tidy) :
    t.Full ↔ t.segments.size = t.maxSegments ∧ ∀ i, t.roomAt i = false := by
  refine and_congr_right fun _ => forall_congr' fun i => ?_
  cases hs : t.segments[i]? with
  | none => simp [roomAt, hs]
  | some s =>
    simp only [roomAt, hs, Option.any_some, Option.some.injEq, forall_eq']
    exact ((h.sound i s hs).hasRoom_eq_false_iff h.capacity_le).symm

/-- No slot is found for a new element just when the arena is full. -/
theorem Tidy.allocate_eq_iff (h : t.Tidy) (e : Element) :
    ((Arena.allocate e).on t).1 = .error (.fullMemory t.maxSegments) ↔ t.Full := by
  have hsize := h.size_le
  rw [h.full_iff]
  rcases allocate_cases h.capacity_le e with ⟨i, s, v, hs, hv, hrun⟩ | ⟨-, hlt, hrun⟩ |
    ⟨hno, hge, hrun⟩ | ⟨hnot, -⟩
  · simp only [hrun, reduceCtorEq, false_iff]
    rintro ⟨-, hno⟩
    have hroom := hno i
    simp only [roomAt, hs, Option.any_some] at hroom
    simp [(s.vacancy?_eq_none_iff h.capacity_le).2 hroom] at hv
  · simp only [hrun, reduceCtorEq, false_iff]
    omega
  · simp [hrun, hno, show t.segments.size = t.maxSegments by omega]
  · exact absurd h.usable hnot

end Arena

/-! ## Limits -/

namespace Arena

/-- The limit of an arena never changes, and segments stay engaged. -/
theorem lockstep_limits (m n : Nat) :
    Lockstep fun t t' => t' = t ∧ t.maxSegments = m ∧ n ≤ t.segments.size := by
  refine lockstep_of_kept (fun t a f h => ?_) (fun t e v h => ?_) (fun t _ h => ?_) fun t a h => ?_
  · rw [Arena.update]
    split
    · exact h
    · exact ⟨h.1, by simpa using h.2⟩
  · exact ⟨h.1, by simpa [Arena.occupy] using h.2⟩
  · refine ⟨h.1, ?_⟩
    simp only [Arena.grow, Array.size_push]
    omega
  · exact ⟨h.1, by simpa using h.2⟩

end Arena

/-- The number of segments that there may be: as many as the settings allow, and one at the least,
or those of a dump that has more of them. -/
theorem Reached.limit {allowed : Settings → Prop} {made : List Address} {s : Store}
    (h : Reached allowed made s) :
    ∃ c, allowed c ∧ (s.arena.maxSegments = max c.maxSegments.toNat 1 ∨
      max c.maxSegments.toNat 1 < s.arena.maxSegments ∧
        s.arena.segments.size = s.arena.maxSegments) := by
  induction h with
  | @fresh c hc => exact ⟨c, hc, .inl rfl⟩
  | @act made s k hk h ih =>
    obtain ⟨c, hc, hlimit⟩ := ih
    have hkept := fun n hn =>
      (k.respects (Arena.lockstep_limits s.arena.maxSegments n) s s ⟨rfl, rfl, hn⟩).2.2
    refine ⟨c, hc, ?_⟩
    rw [(hkept 0 (Nat.zero_le _)).1]
    rcases hlimit with heq | ⟨hlt, hsize⟩
    · exact .inl heq
    · -- no more segments than there may be, and no fewer than there were
      have hge := (hkept s.arena.maxSegments (by omega)).2
      have hle := (h.act k hk).atRest.sound.tidy.size_le
      rw [(hkept 0 (Nat.zero_le _)).1] at hle
      exact .inr ⟨hlt, by omega⟩
  | counted m _ ih => exact ih
  | @loaded made s s' c y check hc h hload ih =>
    obtain ⟨contents, rfl, -⟩ := Dump.restored_of_decode h.atRest hload
    have ht := h.atRest.sound.tidy
    have hsize : s.arena.segments.size ≤ 65535 := ht.size_le.trans ht.maxSegments_le
    have hmax : (Dump.restored c s contents).arena.maxSegments
        = max (max c.maxSegments.toNat s.arena.segments.size) 1 := by
      show (Dump.loadedArena c s.arena).refreshHint.maxSegments = _
      rw [← Dump.toNat_ofNat_of_le hsize, ← Dump.toNat_max, Arena.refreshHint]
      split <;> rfl
    refine ⟨c, hc, ?_⟩
    rw [hmax, Dump.segments_restored]
    omega

/-! ## Creations -/

/-- The element that an operation makes. -/
def Action.element? : Action → Option Element
  | .addNode type access => some { type := type ||| .node, access }
  | .addLink type access => some { type := type ||| .link, access }
  | .connect type source target access =>
    some { type, access, connection := some { source, target } }
  | .erase _ | .narrow _ _ | .setAccess _ _ | .setContent _ _ | .commit _ => none

/-- The type of an element that is to be made is one of its kind. -/
def Action.Typed : Action → Prop
  | .addNode type _ => type.isConnector = false ∧ type.isLink = false
  | .addLink type _ => type.isConnector = false ∧ type.hasAny (.nodeBits &&& ~~~.link) = false
  | .connect type _ _ _ => type.kind.isConnectorKind = true ∧ type.kind.narrowsTo type = true
  | .erase _ | .narrow _ _ | .setAccess _ _ | .setContent _ _ | .commit _ => False

/-- The arguments of a call are at fault, not the store. -/
def Failure.OfArguments : Failure → Prop
  | fullMemory _ | corrupt _ => False
  | _ => True

namespace Store

variable {s s' : Store} {made : List Address} {e : Element}

/-- The arguments of a creation are as they have to be: the type is one of the kind that is to be
made, and the ends of a connector are live. -/
def Admits (s : Store) : Action → Prop
  | .addNode type _ => type.isConnector = false ∧ type.isLink = false
  | .addLink type _ => type.isConnector = false ∧ type.hasAny (.nodeBits &&& ~~~.link) = false
  | .connect type source target _ => type.kind.isConnectorKind = true ∧
      type.kind.narrowsTo type = true ∧ s.isLive source = true ∧ s.isLive target = true
  | .erase _ | .narrow _ _ | .setAccess _ _ | .setContent _ _ | .commit _ => False

/-- Making an element stores it in a slot that was not live and attaches it, or there is no slot. -/
theorem Sound.make_cases (h : s.Sound made) (hempty : ∀ d, e.ring d = {})
    (hends : ∀ p ∈ e.places, (s.arena.find? p.1).isSome) :
    (¬s.arena.Full ∧ ∃ c t s', (Store.make e).on s = (.ok c, s') ∧ Arena.Stored s.arena t c e ∧
      (attachAll c e.places).on t = (.ok (), s'.arena) ∧ s.arena.Grown s'.arena c e) ∨
    (s.arena.Full ∧ ∃ s',
      (Store.make e).on s = (.error (.fullMemory s.arena.maxSegments), s')) := by
  have hfull := h.tidy.allocate_eq_iff e
  rcases h.make hempty hends with
    ⟨c, t, s', hrun, hallocate, hstored, hattach, hgrown, -⟩ | ⟨s', hrun, hallocate, -⟩
  · refine .inl ⟨fun hf => ?_, c, t, s', hrun, hstored, hattach, hgrown⟩
    have := hfull.2 hf
    simp [hallocate] at this
  · exact .inr ⟨hfull.1 (by rw [hallocate]), s', hrun⟩

/-! ### Arguments -/

/-- A step makes `e` if `p` holds; if not, it is refused on account of its arguments. -/
def MakesIf (s : Store) (p : Prop) (e : Element) (x : Step Store Address) : Prop :=
  (p ∧ x.on s = (make e).on s) ∨ (¬p ∧ ∃ f, x.on s = (.error f, s) ∧ f.OfArguments)

variable {p q : Prop} {b : Bool} {f : Failure} {x : Step Store Address} {a : Address}

theorem makesIf_make : s.MakesIf True e (make e) := .inl ⟨trivial, rfl⟩

theorem MakesIf.congr (h : s.MakesIf p e x) (hpq : p ↔ q) : s.MakesIf q e x := by
  rwa [MakesIf, ← hpq]

theorem MakesIf.ask {g : Store → Except Failure Unit} (h : s.MakesIf p e x)
    (hq : g s = .ok () ↔ q) (hg : ∀ f, g s = .error f → f.OfArguments) :
    s.MakesIf (q ∧ p) e (Step.ask g >>= fun _ => x) := by
  rw [MakesIf, Step.on_bind, Step.on_ask]
  cases hs : g s with
  | ok u => exact h.congr (by simp [← hq, hs])
  | error f => exact .inr ⟨by simp [← hq, hs], f, rfl, hg f hs⟩

theorem MakesIf.unless (h : s.MakesIf p e x) (hf : f.OfArguments) :
    s.MakesIf (b = true ∧ p) e (do
      unless b do throw f
      x) := by
  cases b with
  | true => exact h.congr (by simp)
  | false => exact .inr ⟨by simp, f, rfl, hf⟩

theorem MakesIf.notWhen (h : s.MakesIf p e x) (hf : f.OfArguments) :
    s.MakesIf (b = false ∧ p) e (do
      if b then throw f
      x) := by
  cases b with
  | false => exact h.congr (by simp)
  | true => exact .inr ⟨by simp, f, rfl, hf⟩

/-- In a calm store the ends of a connector have to be live, and no more. -/
theorem Calm.requireStaying_iff (h : s.Calm) : s.requireStaying a = .ok () ↔ s.isLive a = true := by
  constructor
  · intro hok
    obtain ⟨e, he, -⟩ := requireStaying_ok hok
    exact Arena.isLive_iff.2 ⟨e, he⟩
  · intro hlive
    obtain ⟨e, he⟩ := Arena.isLive_iff.1 hlive
    simp [requireStaying, Arena.fetch, he, h a e he, bind, Except.bind, pure, Except.pure]

theorem requireStaying_fault (h : s.requireStaying a = .error f) : f.OfArguments := by
  rw [requireStaying, Arena.fetch] at h
  cases he : s.arena.find? a with
  | none =>
    have hf : (if a.isEmpty then Failure.invalidParams .emptyAddress else .notLive a) = f := by
      simpa [he, bind, Except.bind] using h
    subst hf
    split <;> trivial
  | some e =>
    rw [he] at h
    cases hm : e.erasing with
    | false => simp [hm, bind, Except.bind, pure, Except.pure] at h
    | true =>
      obtain rfl : Failure.notLive a = f := by
        simpa [hm, bind, Except.bind, throw, throwThe, MonadExceptOf.throw] using h
      trivial

theorem MakesIf.askStaying (h : s.MakesIf p e x) :
    s.MakesIf (s.requireStaying a = .ok () ∧ p) e
      (Step.ask (·.requireStaying a) >>= fun _ => x) :=
  h.ask Iff.rfl fun _ => requireStaying_fault

theorem isEmpty_of_isLive (h : s.isLive a = true) : a.isEmpty = false := by
  obtain ⟨e, he⟩ := Arena.isLive_iff.1 h
  rw [← Bool.not_eq_true, Address.isEmpty_iff]
  exact Arena.ne_empty_of_find? he

/-- The ends of a connector that is to be made are given, and no one erases them. -/
def Staying (s : Store) : Action → Prop
  | .connect _ source target _ => (source.isEmpty || target.isEmpty) = false ∧
      s.requireStaying source = .ok () ∧ s.requireStaying target = .ok ()
  | .addNode _ _ | .addLink _ _ | .erase _ | .narrow _ _ | .setAccess _ _ | .setContent _ _
  | .commit _ => True

/-- A creation makes its element if its type is one of the kind and its ends stay. -/
theorem exists_makesIf {k : Action} (hk : k.element? = some e) :
    ∃ x : Step Store Address, k.run = Answer.made <$> x ∧
      s.MakesIf (k.Typed ∧ s.Staying k) e x := by
  cases k with
  | addNode type access =>
    obtain rfl := Option.some.inj hk
    refine ⟨_, rfl, MakesIf.congr (p := (type.isConnector || type.isLink) = false ∧ True) ?_
      (by simp [Action.Typed, Staying])⟩
    exact (make_alone ▸ makesIf_make).notWhen trivial
  | addLink type access =>
    obtain rfl := Option.some.inj hk
    refine ⟨_, rfl, MakesIf.congr (p := (type.isConnector ||
      type.hasAny (.nodeBits &&& ~~~.link)) = false ∧ True) ?_ (by simp [Action.Typed, Staying])⟩
    exact (make_alone ▸ makesIf_make).notWhen trivial
  | connect type source target access =>
    obtain rfl := Option.some.inj hk
    let e : Element := { type, access, connection := some { source, target } }
    have hends : s.MakesIf (s.requireStaying source = .ok () ∧ s.requireStaying target = .ok () ∧
        True) e (do
        Step.ask (·.requireStaying source)
        Step.ask (·.requireStaying target)
        make e) :=
      makesIf_make.askStaying.askStaying
    have hwell : s.MakesIf (type.kind.isConnectorKind = true ∧ type.kind.narrowsTo type = true ∧
        (source.isEmpty || target.isEmpty) = false ∧ s.requireStaying source = .ok () ∧
          s.requireStaying target = .ok () ∧ True) e (connect type source target access) :=
      .unless (.unless (.notWhen hends trivial) trivial) trivial
    exact ⟨_, rfl, hwell.congr (by simp [Action.Typed, Staying, and_assoc])⟩
  | erase _ | narrow _ _ | setAccess _ _ | setContent _ _ | commit _ => cases hk

/-- A creation in a calm store makes its element if its arguments are as they have to be. -/
theorem Calm.makesIf (h : s.Calm) {k : Action} (hk : k.element? = some e) :
    ∃ x : Step Store Address, k.run = Answer.made <$> x ∧ s.MakesIf (s.Admits k) e x := by
  obtain ⟨x, hx, hif⟩ := exists_makesIf (s := s) hk
  refine ⟨x, hx, hif.congr ?_⟩
  cases k with
  | addNode | addLink => simp [Action.Typed, Staying, Admits]
  | connect type source target access =>
    simp only [Action.Typed, Staying, Admits, h.requireStaying_iff, Bool.or_eq_false_iff]
    constructor
    · rintro ⟨⟨hkind, htype⟩, -, hlive⟩
      exact ⟨hkind, htype, hlive⟩
    · rintro ⟨hkind, htype, hlive⟩
      exact ⟨⟨hkind, htype⟩, ⟨isEmpty_of_isLive hlive.1, isEmpty_of_isLive hlive.2⟩, hlive⟩
  | erase _ | narrow _ _ | setAccess _ _ | setContent _ _ | commit _ => cases hk

/-- The ends of a connector that is to be made are live. -/
theorem Admits.isSome_find? {k : Action} (h : s.Admits k) (hk : k.element? = some e) :
    ∀ p ∈ e.places, (s.arena.find? p.1).isSome := by
  rintro ⟨x, d⟩ hp
  cases k with
  | addNode | addLink =>
    obtain rfl := Option.some.inj hk
    simp [Element.places] at hp
  | connect type source target access =>
    obtain rfl := Option.some.inj hk
    obtain ⟨-, -, hsource, htarget⟩ := h
    rcases (Element.mem_places_iff rfl).1 ⟨d, hp⟩ with rfl | rfl
    · exact hsource
    · exact htarget
  | erase _ | narrow _ _ | setAccess _ _ | setContent _ _ | commit _ => cases hk

theorem ring_of_element? {k : Action} (hk : k.element? = some e) (d : Direction) :
    e.ring d = {} := by
  cases k with
  | addNode | addLink | connect =>
    obtain rfl := Option.some.inj hk
    cases d <;> rfl
  | erase | narrow | setAccess | setContent | commit => cases hk

/-! ### Slots -/

/-- In `s'` the element `e` is at `a`, where nothing was live, and the other slots are the same, but
for the ring links of the elements on which `e` was made. -/
structure Fills (s s' : Store) (a : Address) (e : Element) : Prop where
  fresh : s.isLive a = false
  new : s'.arena.bare? a = some e.bare
  others : ∀ b, b ≠ a →
    (s'.arena.slot? b).map (Slot.update Element.bare)
      = (s.arena.slot? b).map (Slot.update Element.bare)
  alone : e.connection = none → ∀ b, b ≠ a → s'.arena.slot? b = s.arena.slot? b

/-- A slot is known by the element that it holds and by the slot below it on the free chain. -/
theorem map_bare_congr {x y : Option Slot}
    (helement : (x.bind Slot.element?).map Element.bare = (y.bind Slot.element?).map Element.bare)
    (hnext : x.bind Slot.next? = y.bind Slot.next?) :
    x.map (Slot.update Element.bare) = y.map (Slot.update Element.bare) := by
  rcases x with - | (m | e) <;> rcases y with - | (n | e') <;>
    simp_all [Slot.element?, Slot.next?, Slot.update]

/-- Storing an element and attaching it fills a slot. -/
theorem fills_of_stored {t : Arena} (hstored : Arena.Stored s.arena t a e)
    (hattach : (attachAll a e.places).on t = (.ok (), s'.arena))
    (hgrown : s.arena.Grown s'.arena a e) : s.Fills s' a e := by
  refine ⟨?_, ?_, fun b hb => ?_, fun hcon b hb => ?_⟩
  · rw [isLive, Arena.isLive, hstored.fresh]
    rfl
  · rw [hgrown.bare, if_pos rfl]
  · refine map_bare_congr ?_ ?_
    · have hbare := hgrown.bare b
      rwa [if_neg hb] at hbare
    · -- attaching changes elements only
      have hkeeps : Step.Keeps
          (fun u : Arena => (u.slot? b).bind Slot.next? = (t.slot? b).bind Slot.next?)
          (attachAll a e.places) := by
        refine Step.respects_iff_keeps.1 (Arena.parallel_of_update fun u c f hu => ?_).attachAll
        rw [← hu, Arena.slot?_update]
        split
        · cases u.slot? b <;> simp
        · rfl
      have hkept := hkeeps t rfl
      rwa [hattach, hstored.slot?, if_neg hb] at hkept
  · have hplaces : e.places = [] := by rw [Element.places, hcon]
    rw [hplaces] at hattach
    obtain rfl : t = s'.arena := (Prod.mk.inj hattach).2
    rw [hstored.slot?, if_neg hb]

/-- How a creation `k` of the element `e` comes out in `s`: if its arguments are as they have to be,
it makes the element while there is room. -/
structure Settles (s : Store) (k : Action) (e : Element) : Prop where
  made_iff : (∃ a, (k.run.on s).1 = .ok (.made a)) ↔ s.Admits k ∧ ¬s.arena.Full
  full_iff : ∀ n, (k.run.on s).1 = .error (.fullMemory n) ↔
    s.Admits k ∧ s.arena.Full ∧ n = s.arena.maxSegments
  intact : ∀ d, (k.run.on s).1 ≠ .error (.corrupt d)
  fills : ∀ a, (k.run.on s).1 = .ok (.made a) → s.Fills (k.run.on s).2 a e

theorem AtRest.settles (h : s.AtRest made) {k : Action} (hk : k.element? = some e) :
    s.Settles k e := by
  obtain ⟨x, hx, hif⟩ := h.calm.makesIf hk
  have hmap : ∀ {r s'}, x.on s = (r, s') → k.run.on s = (r.map .made, s') := fun hrun => by
    rw [hx, Step.on_map, hrun]
  rcases hif with ⟨hadmits, hrun⟩ | ⟨hnot, f, hrun, hf⟩
  · rcases h.sound.make_cases (ring_of_element? hk) (hadmits.isSome_find? hk) with
      ⟨hroom, c, t, s', hmake, hstored, hattach, hgrown⟩ | ⟨hfull, s', hmake⟩
    · refine ⟨?_, fun n => ?_, fun d => ?_, fun a ha => ?_⟩ <;>
        rw [hmap (hrun.trans hmake)] at *
      · simp [Except.map, hadmits, hroom]
      · simp [Except.map, hroom]
      · simp [Except.map]
      · obtain rfl : c = a := by simpa [Except.map] using ha
        exact fills_of_stored hstored hattach hgrown
    · refine ⟨?_, fun n => ?_, fun d => ?_, fun a ha => ?_⟩ <;>
        rw [hmap (hrun.trans hmake)] at *
      · simp [Except.map, hfull]
      · simp [Except.map, hadmits, hfull, eq_comm]
      · simp [Except.map]
      · simp [Except.map] at ha
  · refine ⟨?_, fun n => ?_, fun d => ?_, fun a ha => ?_⟩ <;> rw [hmap hrun] at *
    · simp [Except.map, hnot]
    · simp only [Except.map, Except.error.injEq, hnot, false_and, iff_false]
      rintro rfl
      exact hf
    · simp only [Except.map, ne_eq, Except.error.injEq]
      rintro rfl
      exact hf
    · simp [Except.map] at ha

/-- Every engaged slot is live or on a free chain, and what a creation comes to depends on its
arguments and on whether there is room. -/
structure Allocates (s : Store) : Prop where
  divided : ∀ (i : Nat) (g : Segment), s.arena.segments[i]? = some g → g.Divided s.arena.capacity
  settles : ∀ k e, Action.element? k = some e → s.Settles k e

end Store

namespace Reached

variable {allowed : Settings → Prop} {made : List Address} {s : Store}

/-- Whatever was reached, a creation with arguments as they have to be succeeds, in a slot that was
not live and in no other, until every slot of as many segments as there may be is live. -/
theorem allocation_sound (h : Reached allowed made s) :
    s.Allocates ∧ ∃ c, allowed c ∧ (s.arena.maxSegments = max c.maxSegments.toNat 1 ∨
      max c.maxSegments.toNat 1 < s.arena.maxSegments ∧
        s.arena.segments.size = s.arena.maxSegments) :=
  ⟨⟨fun i g hg => (h.atRest.sound.tidy.sound i g hg).divided,
    fun _ _ hk => h.atRest.settles hk⟩, h.limit⟩

/-- Two segments with a free slot each. -/
theorem allocation_sound_halvedStore : ∃ made, Reached (· = narrowSettings) made halvedStore ∧
    halvedStore.Allocates ∧
    ∃ c, c = narrowSettings ∧ (halvedStore.arena.maxSegments = max c.maxSegments.toNat 1 ∨
      max c.maxSegments.toNat 1 < halvedStore.arena.maxSegments ∧
        halvedStore.arena.segments.size = halvedStore.arena.maxSegments) := by
  obtain ⟨made, h⟩ := reached_halvedStore
  exact ⟨made, h, h.allocation_sound⟩

end Reached

end SemanticNet
