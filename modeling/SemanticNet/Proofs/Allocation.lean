import SemanticNet.Proofs.Slots

/-!
# Allocation

An arena is tidy when its segments are sound and its limits hold (`Arena.Tidy`). A tidy arena stores
a new element at an address that was not live and leaves every other address as it is, or all its
slots are taken (`Tidy.allocate`); freeing an element clears its address and no other, and that is
where the next element comes to stand (`Tidy.free`).
-/

namespace SemanticNet

theorem Address.eq_iff {a b : Address} : a = b ↔ a.segment = b.segment ∧ a.offset = b.offset := by
  cases a
  cases b
  simp

namespace Arena

variable {t t' : Arena} {a b : Address} {e : Element} {i : Nat} {is : List Nat}

/-- The limits of an arena hold and its segments are sound. -/
structure Tidy (t : Arena) : Prop where
  size_le : t.segments.size ≤ t.maxSegments
  maxSegments_le : t.maxSegments ≤ 65535
  capacity_pos : 0 < t.capacity
  capacity_le : t.capacity ≤ 65535
  hint_lt : t.hint < max t.segments.size 1
  sound : ∀ (i : Nat) (s : Segment), t.segments[i]? = some s → s.Sound t.capacity

/-- Whether the segment with an index has room. -/
def roomAt (t : Arena) (i : Nat) : Bool := t.segments[i]?.any (·.hasRoom t.capacity)

theorem tidy_ofLimits (m n : UInt16) : (ofLimits m n).Tidy where
  size_le := Nat.zero_le _
  maxSegments_le := by
    have := m.toNat_lt
    show max m.toNat 1 ≤ 65535
    omega
  capacity_pos := by
    show 0 < max n.toNat 1
    omega
  capacity_le := by
    have := n.toNat_lt
    show max n.toNat 1 ≤ 65535
    omega
  hint_lt := Nat.zero_lt_one
  sound i s h := by
    have : (#[] : Array Segment)[i]? = some s := h
    simp at this

/-! ## The view -/

/-- A live element stands at an address that is not empty. -/
theorem ne_empty_of_find? (h : t.find? a = some e) : a ≠ .empty := by
  intro heq
  subst heq
  simp [find?, slot?, Address.empty] at h

theorem find?_eq_some_iff : t.find? a = some e ↔ t.slot? a = some (.live e) := by
  rw [find?]
  rcases t.slot? a with - | (n | e') <;> simp [Slot.element?]

theorem isLive_iff : t.isLive a = true ↔ ∃ e, t.find? a = some e := by
  rw [isLive, Option.isSome_iff_exists]

/-- Changing one segment changes the view of its own addresses. -/
theorem slot?_modify (f : Segment → Segment) (h : Nat) :
    ({ t with segments := t.segments.modify i f, hint := h } : Arena).slot? b
      = if b.segment.toNat = i + 1 then t.segments[i]?.bind fun s => (f s).slot? b.offset
        else t.slot? b := by
  simp only [slot?, Array.getElem?_modify]
  by_cases hb : b.segment = 0
  · simp [hb]
  · have hb' : b.segment.toNat ≠ 0 := fun e => hb (UInt16.toNat_inj.1 e)
    rw [if_neg hb, if_neg hb]
    by_cases hi : i = b.segment.toNat - 1
    · rw [if_pos hi, if_pos (by omega), ← hi]
      cases t.segments[i]? <;> rfl
    · rw [if_neg hi, if_neg (by omega)]

theorem slot?_of_segment {s : Segment} (hs : t.segments[i]? = some s)
    (hb : b.segment.toNat = i + 1) : t.slot? b = s.slot? b.offset := by
  have h0 : b.segment ≠ 0 := by
    intro e
    rw [e] at hb
    simp at hb
  rw [slot?, if_neg h0, hb]
  simp [hs]

theorem toNat_addressAt {o : UInt16} (hi : i < 65535) : (addressAt i o).segment.toNat = i + 1 := by
  rw [addressAt, UInt16.toNat_ofNat', Nat.mod_eq_of_lt (by omega)]

theorem eq_addressAt_iff {o : UInt16} (hi : i < 65535) :
    b = addressAt i o ↔ b.segment.toNat = i + 1 ∧ b.offset = o := by
  rw [Address.eq_iff, ← UInt16.toNat_inj, toNat_addressAt hi]
  rfl

/-! ## The slot that is handed out next -/

/-- No segment has a damaged free chain. -/
def Usable (t : Arena) : Prop :=
  ∀ (i : Nat) (s : Segment), t.segments[i]? = some s → s.Usable

theorem Tidy.usable (h : t.Tidy) : t.Usable := fun i s hs => (h.sound i s hs).usable

theorem lt_size_of_roomAt (h : t.roomAt i = true) : i < t.segments.size := by
  obtain ⟨s, hs, -⟩ := (Option.any_eq_true _ _).1 h
  exact (Array.getElem?_eq_some_iff.1 hs).1

/-- The segments are tried one after the other until one hands out a slot or is found damaged. -/
theorem vacancyAmong?_cases (hc : t.capacity ≤ 65535) (is : List Nat) :
    (∃ i s v, i ∈ is ∧ t.segments[i]? = some s ∧ s.vacancy? t.capacity = .ok (some v) ∧
      t.vacancyAmong? is = .ok (some (i, v))) ∨
    (t.vacancyAmong? is = .ok none ∧ ∀ i ∈ is, t.roomAt i = false) ∨
    (∃ i s, i ∈ is ∧ t.segments[i]? = some s ∧ ¬s.Usable ∧
      t.vacancyAmong? is = .error (.corrupt .liveOnFreeChain)) := by
  induction is with
  | nil => exact .inr (.inl ⟨rfl, by simp⟩)
  | cons i is ih =>
    -- when the first segment is passed over, it has no room
    have hpass : t.roomAt i = false → t.vacancyAmong? (i :: is) = t.vacancyAmong? is →
        (∃ j s v, j ∈ i :: is ∧ t.segments[j]? = some s ∧ s.vacancy? t.capacity = .ok (some v) ∧
          t.vacancyAmong? (i :: is) = .ok (some (j, v))) ∨
        (t.vacancyAmong? (i :: is) = .ok none ∧ ∀ j ∈ i :: is, t.roomAt j = false) ∨
        (∃ j s, j ∈ i :: is ∧ t.segments[j]? = some s ∧ ¬s.Usable ∧
          t.vacancyAmong? (i :: is) = .error (.corrupt .liveOnFreeChain)) := by
      intro hroom heq
      rw [heq]
      rcases ih with ⟨j, s, v, hj, hrest⟩ | ⟨hnone, hall⟩ | ⟨j, s, hj, hrest⟩
      · exact .inl ⟨j, s, v, List.mem_cons_of_mem i hj, hrest⟩
      · exact .inr (.inl ⟨hnone, List.forall_mem_cons.2 ⟨hroom, hall⟩⟩)
      · exact .inr (.inr ⟨j, s, List.mem_cons_of_mem i hj, hrest⟩)
    cases hs : t.segments[i]? with
    | none => exact hpass (by simp [roomAt, hs]) (by simp [vacancyAmong?, hs])
    | some s =>
      cases hv : s.vacancy? t.capacity with
      | ok v? =>
        cases v? with
        | some v =>
          exact .inl ⟨i, s, v, List.mem_cons_self, hs, hv, by simp [vacancyAmong?, hs, hv]⟩
        | none =>
          have hroom := (s.vacancy?_eq_none_iff hc).1 hv
          exact hpass (by simp [roomAt, hs, hroom]) (by simp [vacancyAmong?, hs, hv])
      | error f =>
        have hdamaged : ¬s.Usable ∧ f = .corrupt .liveOnFreeChain := by
          rcases s.vacancy?_cases hc with ⟨n, -, hw⟩ | ⟨o, -, -, -, hw⟩ | ⟨-, -, hw⟩ |
            ⟨hhead, -, hw⟩
          · simp [hv] at hw
          · simp [hv] at hw
          · simp [hv] at hw
          · refine ⟨fun husable => ?_, Except.error.inj (hv.symm.trans hw)⟩
            obtain ⟨v, hv'⟩ := husable.vacancy?_of_room hc (by simp [Segment.hasRoom, hhead])
            simp [hv] at hv'
        obtain ⟨hnot, rfl⟩ := hdamaged
        exact .inr (.inr ⟨i, s, List.mem_cons_self, hs, hnot, by simp [vacancyAmong?, hs, hv]⟩)

theorem Usable.vacancyAmong?_singleton (h : t.Usable) (hc : t.capacity ≤ 65535)
    (hi : t.roomAt i = true) :
    ∃ s v, t.segments[i]? = some s ∧ s.vacancy? t.capacity = .ok (some v) ∧
      t.vacancyAmong? [i] = .ok (some (i, v)) := by
  obtain ⟨s, hs, hroom⟩ := (Option.any_eq_true _ _).1 hi
  obtain ⟨v, hv⟩ := (h i s hs).vacancy?_of_room hc hroom
  exact ⟨s, v, hs, hv, by simp [vacancyAmong?, hs, hv]⟩

/-- Among several segments the first one with room hands out its slot. -/
theorem Usable.vacancyAmong?_eq (h : t.Usable) (hc : t.capacity ≤ 65535) (is : List Nat) :
    t.vacancyAmong? is = match is.find? t.roomAt with
      | some i => t.vacancyAmong? [i]
      | none => .ok none := by
  induction is with
  | nil => rfl
  | cons i is ih =>
    rw [List.find?_cons]
    cases hroom : t.roomAt i with
    | true =>
      obtain ⟨s, v, hs, hv, -⟩ := h.vacancyAmong?_singleton hc hroom
      simp [vacancyAmong?, hs, hv]
    | false =>
      cases hs : t.segments[i]? with
      | none => simp [vacancyAmong?, hs, ih]
      | some s =>
        have hno : s.vacancy? t.capacity = .ok none := by
          rw [s.vacancy?_eq_none_iff hc]
          simpa [roomAt, hs] using hroom
        simp [vacancyAmong?, hs, hno, ih]

theorem Tidy.hint_le (h : t.Tidy) : t.hint ≤ t.segments.size := by
  have := h.hint_lt
  omega

/-- The segments from the hint on are tried before the others. -/
theorem Tidy.trialOrder_eq (h : t.Tidy) :
    t.trialOrder = List.range' t.hint (t.segments.size - t.hint) ++ List.range t.hint := by
  have hhint := h.hint_lt
  refine List.ext_getElem ?_ fun k hk hk' => ?_
  · simp only [trialOrder, List.length_map, List.length_range, List.length_append,
      List.length_range']
    omega
  · have hlt : k < t.segments.size := by simpa [trialOrder] using hk
    simp only [trialOrder, List.getElem_map, List.getElem_range, List.getElem_append,
      List.length_range', List.getElem_range', Nat.one_mul]
    split
    · rw [Nat.mod_eq_of_lt (by omega)]
    · rw [Nat.mod_eq_sub_mod (by omega), Nat.mod_eq_of_lt (by omega)]
      omega

/-- All segments are tried, wherever the trial starts. -/
theorem mem_trialOrder (hi : i < t.segments.size) : i ∈ t.trialOrder := by
  have hpos : 0 < t.segments.size := by omega
  have hlt := Nat.mod_lt t.hint hpos
  have hdiv := Nat.mod_add_div t.hint t.segments.size
  -- the step from the hint to `i`, going round when `i` comes before it
  refine List.mem_map.2 ⟨(t.segments.size - t.hint % t.segments.size + i) % t.segments.size,
    List.mem_range.2 (Nat.mod_lt _ hpos), ?_⟩
  have hsum : t.hint + (t.segments.size - t.hint % t.segments.size + i)
      = i + t.segments.size * (t.hint / t.segments.size + 1) := by
    rw [Nat.mul_succ]
    omega
  rw [Nat.add_mod_mod, hsum, Nat.add_mul_mod_self_left, Nat.mod_eq_of_lt hi]

/-- An arena hands out the slot of a segment, unless no segment has room or one is damaged. -/
theorem vacancy?_cases (hc : t.capacity ≤ 65535) :
    (∃ i s v, t.segments[i]? = some s ∧ s.vacancy? t.capacity = .ok (some v) ∧
      t.vacancy? = .ok (some (i, v))) ∨
    (t.vacancy? = .ok none ∧ ∀ i, t.roomAt i = false) ∨
    (¬t.Usable ∧ t.vacancy? = .error (.corrupt .liveOnFreeChain)) := by
  rcases vacancyAmong?_cases hc t.trialOrder with ⟨i, s, v, -, hs, hv, hw⟩ | ⟨hw, hall⟩ |
    ⟨i, s, -, hs, hnot, hw⟩
  · exact .inl ⟨i, s, v, hs, hv, hw⟩
  · refine .inr (.inl ⟨hw, fun i => ?_⟩)
    by_cases hi : i < t.segments.size
    · exact hall i (mem_trialOrder hi)
    · simp [roomAt, Array.getElem?_eq_none (Nat.le_of_not_lt hi)]
  · exact .inr (.inr ⟨fun h => hnot (h i s hs), hw⟩)

/-- A tidy arena hands out the slot of a segment that has room, unless none has. -/
theorem Tidy.vacancy?_cases (h : t.Tidy) :
    (∃ i s v, t.roomAt i = true ∧ t.segments[i]? = some s ∧
      s.vacancy? t.capacity = .ok (some v) ∧ t.vacancy? = .ok (some (i, v))) ∨
    (t.vacancy? = .ok none ∧ ∀ i, t.roomAt i = false) := by
  rcases Arena.vacancy?_cases h.capacity_le with ⟨i, s, v, hs, hv, hw⟩ | hfull | ⟨hnot, -⟩
  · refine .inl ⟨i, s, v, ?_, hs, hv, hw⟩
    cases hroom : s.hasRoom t.capacity with
    | true => simp [roomAt, hs, hroom]
    | false => simp [(s.vacancy?_eq_none_iff h.capacity_le).2 hroom] at hv
  · exact .inr hfull
  · exact absurd h.usable hnot

/-- The segment that is tried first hands out its slot. -/
theorem Tidy.vacancy?_of_hint (h : t.Tidy) {s : Segment} {v : Segment.Vacancy}
    (hs : t.segments[t.hint]? = some s) (hv : s.vacancy? t.capacity = .ok (some v)) :
    t.vacancy? = .ok (some (t.hint, v)) := by
  have hlt := (Array.getElem?_eq_some_iff.1 hs).1
  obtain ⟨n, hn⟩ := Nat.exists_eq_add_one_of_ne_zero (Nat.sub_ne_zero_of_lt hlt)
  rw [vacancy?, h.trialOrder_eq, hn, List.range'_succ, List.cons_append, vacancyAmong?, hs]
  simp only [hv]

/-- The next element comes to stand at `a`, in a segment that there is. -/
def Offers (t : Arena) (a : Address) : Prop :=
  ∃ v, t.vacancy? = .ok (some v) ∧ addressAt v.1 v.2.offset = a

theorem Offers.allocate (h : t.Offers a) (e : Element) :
    ∃ t', (Arena.allocate e).on t = (.ok a, t') := by
  obtain ⟨v, hv, rfl⟩ := h
  refine ⟨t.occupy e v, ?_⟩
  simp only [Arena.allocate, Step.on_bind, Step.on_ask, hv, Step.on_change, Step.on_pure]

/-! ## Changed elements -/

theorem Tidy.update (h : t.Tidy) (a : Address) (f : Element → Element) : (t.update a f).Tidy := by
  rw [Arena.update]
  split
  · exact h
  · refine ⟨by simpa using h.size_le, h.maxSegments_le, h.capacity_pos, h.capacity_le,
      by simpa using h.hint_lt, fun j g hg => ?_⟩
    simp only [Array.getElem?_modify] at hg
    split at hg
    · obtain ⟨s, hs, rfl⟩ := Option.map_eq_some_iff.1 hg
      exact (h.sound j s hs).modify _ f
    · exact h.sound j g hg

/-! ## New elements -/

/-- The arena `t'` is `t` with a new element in the slot at `a`. No other slot has changed. -/
structure Stored (t t' : Arena) (a : Address) (e : Element) : Prop where
  tidy : t'.Tidy
  fresh : t.find? a = none
  slot? : ∀ b, t'.slot? b = if b = a then some (.live e) else t.slot? b

theorem Stored.find? (h : Stored t t' a e) (b : Address) :
    t'.find? b = if b = a then some e else t.find? b := by
  rw [Arena.find?, h.slot?]
  split <;> rfl

/-- A new element stands at the address of the slot that was handed out, where nothing was live. -/
theorem slot?_occupy (hi : i < 65535) (hc : t.capacity ≤ 65535) {s : Segment}
    {v : Segment.Vacancy} (hs : t.segments[i]? = some s)
    (hv : s.vacancy? t.capacity = .ok (some v)) (e : Element) :
    t.find? (addressAt i v.offset) = none ∧
      ∀ b, (t.occupy e (i, v)).slot? b
        = if b = addressAt i v.offset then some (.live e) else t.slot? b := by
  obtain ⟨hfree, hslot⟩ := Segment.slot?_occupy hc hv e
  have hat := slot?_of_segment (b := addressAt i v.offset) hs (toNat_addressAt hi)
  constructor
  · rw [Option.eq_none_iff_forall_ne_some]
    intro e' he
    rw [find?_eq_some_iff, hat] at he
    exact hfree e' he
  · intro b
    simp only [Arena.occupy, slot?_modify, eq_addressAt_iff hi]
    by_cases hb : b.segment.toNat = i + 1
    · simp only [hb, true_and, if_true, hs, Option.bind_some, hslot]
      split
      · rfl
      · rw [slot?_of_segment hs hb]
    · simp [hb]

/-- Only the segment that handed out the slot has changed. -/
theorem segment?_occupy {s g : Segment} {v : Segment.Vacancy} {j : Nat}
    (hs : t.segments[i]? = some s) (hg : (t.occupy e (i, v)).segments[j]? = some g) :
    (i = j ∧ g = s.occupy e v) ∨ (i ≠ j ∧ t.segments[j]? = some g) := by
  simp only [Arena.occupy, Array.getElem?_modify] at hg
  split at hg
  next hij =>
    subst hij
    rw [hs] at hg
    exact .inl ⟨rfl, (Option.some.inj hg).symm⟩
  next hij => exact .inr ⟨hij, hg⟩

theorem Tidy.occupy (h : t.Tidy) {s : Segment} {v : Segment.Vacancy}
    (hs : t.segments[i]? = some s) (hv : s.vacancy? t.capacity = .ok (some v)) (e : Element) :
    Stored t (t.occupy e (i, v)) (addressAt i v.offset) e := by
  have hi := (Array.getElem?_eq_some_iff.1 hs).1
  have hi' : i < 65535 := by
    have := h.size_le
    have := h.maxSegments_le
    omega
  obtain ⟨hfresh, hslot⟩ := slot?_occupy hi' h.capacity_le hs hv e
  refine ⟨⟨?_, h.maxSegments_le, h.capacity_pos, h.capacity_le, ?_, fun j g hg => ?_⟩, hfresh,
    hslot⟩
  · simpa [Arena.occupy] using h.size_le
  · simp only [Arena.occupy, Array.size_modify]
    omega
  · rcases segment?_occupy hs hg with ⟨-, rfl⟩ | ⟨-, hg⟩
    · exact (h.sound i s hs).occupy h.capacity_le hv e
    · exact h.sound j g hg

theorem Tidy.grow (h : t.Tidy) (hlt : t.segments.size < t.maxSegments) : t.grow.Tidy where
  size_le := by
    show (t.segments.push {}).size ≤ t.maxSegments
    rw [Array.size_push]
    omega
  maxSegments_le := h.maxSegments_le
  capacity_pos := h.capacity_pos
  capacity_le := h.capacity_le
  hint_lt := by
    show t.segments.size < max (t.segments.push {}).size 1
    rw [Array.size_push]
    omega
  sound i s hs := by
    have hs' : (t.segments.push {})[i]? = some s := hs
    rw [Array.getElem?_push] at hs'
    split at hs'
    next =>
      obtain rfl : ({} : Segment) = s := by simpa using hs'
      exact Segment.sound_empty
    next => exact h.sound i s hs'

theorem slot?_grow : t.grow.slot? b = t.slot? b := by
  simp only [slot?, grow, Array.getElem?_push]
  by_cases hb : b.segment = 0
  · simp [hb]
  · rw [if_neg hb, if_neg hb]
    split
    next hsize => simp [hsize, Segment.slot?]
    next => rfl

/-- The new segment has its first slot to hand out. -/
theorem segment?_grow (hpos : 0 < t.capacity) :
    t.grow.segments[t.segments.size]? = some {} ∧
      ({} : Segment).vacancy? t.grow.capacity = .ok (some (.fresh 1)) := by
  constructor
  · simp [Arena.grow]
  · have : 0 < t.grow.capacity := hpos
    simp [Segment.vacancy?, this]

/-- A new element goes into a slot of a segment, or into a new segment when there is no room and may
be another segment. -/
theorem allocate_cases (hc : t.capacity ≤ 65535) (e : Element) :
    (∃ i s v, t.segments[i]? = some s ∧ s.vacancy? t.capacity = .ok (some v) ∧
      (allocate e).on t = (.ok (addressAt i v.offset), t.occupy e (i, v))) ∨
    ((∀ i, t.roomAt i = false) ∧ t.segments.size < t.maxSegments ∧
      (allocate e).on t
        = (.ok (addressAt t.segments.size 1), t.grow.occupy e (t.segments.size, .fresh 1))) ∨
    ((∀ i, t.roomAt i = false) ∧ t.maxSegments ≤ t.segments.size ∧
      (allocate e).on t = (.error (.fullMemory t.maxSegments), t)) ∨
    (¬t.Usable ∧ (allocate e).on t = (.error (.corrupt .liveOnFreeChain), t)) := by
  simp only [Arena.allocate, Step.on_bind, Step.on_ask]
  rcases vacancy?_cases hc with ⟨i, s, v, hs, hv, hw⟩ | ⟨hw, hno⟩ | ⟨hnot, hw⟩
  · refine .inl ⟨i, s, v, hs, hv, ?_⟩
    simp only [hw, Step.on_bind, Step.on_change, Step.on_pure]
  · simp only [hw, Step.on_bind, Step.on_get]
    by_cases hlt : t.segments.size < t.maxSegments
    · refine .inr (.inl ⟨hno, hlt, ?_⟩)
      simp only [hlt, if_true, Step.on_bind, Step.on_change, Step.on_pure]
    · refine .inr (.inr (.inl ⟨hno, Nat.le_of_not_lt hlt, ?_⟩))
      simp only [hlt, if_false, Step.on_throw]
  · exact .inr (.inr (.inr ⟨hnot, by simp only [hw]⟩))

/-- An element is stored at an address that was not live, or every slot is taken. -/
theorem Tidy.allocate (h : t.Tidy) (e : Element) :
    (∃ a t', (allocate e).on t = (.ok a, t') ∧ Stored t t' a e) ∨
      (allocate e).on t = (.error (.fullMemory t.maxSegments), t) := by
  rcases allocate_cases h.capacity_le e with ⟨i, s, v, hs, hv, hrun⟩ | ⟨-, hlt, hrun⟩ |
    ⟨-, -, hrun⟩ | ⟨hnot, -⟩
  · exact .inl ⟨_, _, hrun, h.occupy hs hv e⟩
  · obtain ⟨hs, hv⟩ := segment?_grow h.capacity_pos
    have hst := (h.grow hlt).occupy hs hv e
    refine .inl ⟨_, _, hrun, hst.tidy, ?_, fun b => ?_⟩
    · rw [Arena.find?, ← slot?_grow]
      exact hst.fresh
    · rw [hst.slot?, slot?_grow]
      rfl
  · exact .inr hrun
  · exact absurd h.usable hnot

/-! ## Freed elements -/

/-- A live element is freed, and no other slot changes. -/
theorem free_live (he : t.find? a = some e) :
    (Arena.free a).on t = (.ok (), { t with
      segments := t.segments.modify (a.segment.toNat - 1) (·.free a.offset)
      hint := a.segment.toNat - 1 }) ∧
    ∀ b, ((Arena.free a).on t).2.find? b = if b = a then none else t.find? b := by
  have hslot := find?_eq_some_iff.1 he
  have hlive : t.isLive a = true := isLive_iff.2 ⟨e, he⟩
  have h0 : a.segment ≠ 0 := by
    intro h0
    simp [slot?, h0] at hslot
  have h0' : a.segment.toNat ≠ 0 := fun e => h0 (UInt16.toNat_inj.1 e)
  rw [slot?, if_neg h0, Option.bind_eq_some_iff] at hslot
  obtain ⟨s, hs, ho⟩ := hslot
  have hrun : (Arena.free a).on t = (.ok (), { t with
      segments := t.segments.modify (a.segment.toNat - 1) (·.free a.offset)
      hint := a.segment.toNat - 1 }) := by
    simp [Arena.free, Step.on_bind, hlive]
  refine ⟨hrun, fun b => ?_⟩
  -- an address in another segment is looked up where nothing has changed
  simp only [hrun, Arena.find?, slot?_modify]
  have hseg : b.segment.toNat = a.segment.toNat - 1 + 1 ↔ b.segment = a.segment := by
    rw [← UInt16.toNat_inj]
    omega
  simp only [hseg, Address.eq_iff (a := b)]
  by_cases hb : b.segment = a.segment
  · simp only [hb, true_and, if_true, hs, Option.bind_some,
      Segment.slot?_free (Option.isSome_of_eq_some ho)]
    split
    · rfl
    · rw [slot?_of_segment hs (by rw [hb]; omega)]
  · simp [hb]

/-- The slot that was freed is the next one to be handed out. -/
theorem Tidy.free (h : t.Tidy) (he : t.find? a = some e) :
    ∃ t', (Arena.free a).on t = (.ok (), t') ∧ t'.Tidy ∧ t'.Offers a ∧
      ∀ b, t'.find? b = if b = a then none else t.find? b := by
  obtain ⟨hrun, hfind⟩ := free_live he
  rw [hrun] at hfind
  have hslot := find?_eq_some_iff.1 he
  have h0 : a.segment ≠ 0 := by
    intro h0
    simp [slot?, h0] at hslot
  rw [slot?, if_neg h0] at hslot
  obtain ⟨s, hs, ho⟩ := Option.bind_eq_some_iff.1 hslot
  have hi := (Array.getElem?_eq_some_iff.1 hs).1
  have hsound := (h.sound _ s hs).free ho
  have htidy : Tidy { t with
      segments := t.segments.modify (a.segment.toNat - 1) (·.free a.offset)
      hint := a.segment.toNat - 1 } := by
    refine ⟨?_, h.maxSegments_le, h.capacity_pos, h.capacity_le, ?_, fun j g hg => ?_⟩
    · simpa using h.size_le
    · simp only [Array.size_modify]
      omega
    · simp only [Array.getElem?_modify] at hg
      split at hg
      next hij =>
        subst hij
        rw [hs] at hg
        obtain rfl : s.free a.offset = g := by simpa using hg
        exact hsound
      next => exact h.sound j g hg
  refine ⟨_, hrun, htidy, ⟨(a.segment.toNat - 1, .reused a.offset s.freeHead), ?_, ?_⟩, hfind⟩
  · refine htidy.vacancy?_of_hint (s := s.free a.offset) ?_
      (Segment.vacancy?_free (Option.isSome_of_eq_some ho) t.capacity)
    simp [Array.getElem?_modify, hs]
  · have hsize := Nat.le_trans h.size_le h.maxSegments_le
    have hpos : a.segment.toNat ≠ 0 := fun h => h0 (UInt16.toNat_inj.1 h)
    exact ((eq_addressAt_iff (by omega)).2 ⟨by omega, rfl⟩).symm

end Arena

end SemanticNet
