import SemanticNet.Proofs.Lockstep
import SemanticNet.Proofs.Runs

/-!
# Restoration

A dump does not say which segment was tried first, and a store that comes back tries the first one
that has room. It goes on as the old one would have done when that leads both to the same slot
(`Arena.Alike`); when the old store had room before the segment that it tried first and room from
there on, the next element comes to stand in another segment (`Dump.alike_restored_iff`).
-/

namespace SemanticNet

namespace Arena

variable {t t' : Arena} {a : Address} {i j : Nat}

/-! ## Alike arenas -/

/-- The slots are the same, and the same one is handed out next. -/
structure Alike (t t' : Arena) : Prop where
  twin : ∃ h, t' = { t with hint := h }
  vacancy : t'.vacancy? = t.vacancy?

theorem Alike.refl (t : Arena) : t.Alike t := ⟨⟨t.hint, rfl⟩, rfl⟩

theorem vacancyAmong?_update (t : Arena) (a : Address) (f : Element → Element) (is : List Nat) :
    (t.update a f).vacancyAmong? is = t.vacancyAmong? is := by
  rw [Arena.update]
  split
  · rfl
  · induction is with
    | nil => rfl
    | cons i is ih =>
      simp only [vacancyAmong?, Array.getElem?_modify, ih]
      by_cases hi : a.segment.toNat - 1 = i
      · rw [if_pos hi]
        cases t.segments[i]? with
        | none => rfl
        | some s => simp only [Option.map_some, Segment.vacancy?_modify]
      · rw [if_neg hi]

theorem vacancy?_update (t : Arena) (a : Address) (f : Element → Element) :
    (t.update a f).vacancy? = t.vacancy? := by
  have horder : (t.update a f).trialOrder = t.trialOrder := by
    rw [Arena.update]
    split
    · rfl
    · simp only [trialOrder, Array.size_modify]
  rw [vacancy?, vacancy?, horder, vacancyAmong?_update]

/-- Alike arenas stay alike, whatever is done to both. -/
theorem lockstep_alike : Lockstep Alike where
  find? t t' a h := by
    obtain ⟨⟨n, rfl⟩, -⟩ := h
    rfl
  engaged t t' h := by
    obtain ⟨⟨n, rfl⟩, -⟩ := h
    rfl
  update t t' a f h := by
    refine ⟨?_, by rw [vacancy?_update, vacancy?_update, h.vacancy]⟩
    obtain ⟨⟨n, rfl⟩, -⟩ := h
    refine ⟨n, ?_⟩
    rw [Arena.update, Arena.update]
    split <;> rfl
  allocate e := by
    intro t t' h
    have hv := h.vacancy
    obtain ⟨n, rfl⟩ := h.twin
    simp only [Arena.allocate, Step.on_bind, Step.on_ask, hv]
    cases t.vacancy? with
    | error f => exact ⟨rfl, h⟩
    | ok v =>
      cases v with
      -- what is left is the same arena: the hint that both had is gone
      | some v => exact ⟨rfl, .refl _⟩
      | none =>
        simp only [Step.on_bind, Step.on_get]
        split
        · exact ⟨rfl, .refl _⟩
        · exact ⟨rfl, h⟩
  free a := by
    intro t t' h
    obtain ⟨n, rfl⟩ := h.twin
    have hlive : ({ t with hint := n } : Arena).isLive a = t.isLive a := rfl
    simp only [Arena.free, Step.on_bind, Step.on_get, hlive]
    split
    · exact ⟨rfl, .refl _⟩
    · exact ⟨rfl, h⟩

/-! ## The segment that is tried first -/

/-- There is room both before the segment that is tried first and from there on. -/
def RoomOnBothSides (t : Arena) : Prop :=
  (∃ i, i < t.hint ∧ t.roomAt i = true) ∧ ∃ j, t.hint ≤ j ∧ t.roomAt j = true

theorem range_append_range' {m n : Nat} (h : m ≤ n) :
    List.range m ++ List.range' m (n - m) = List.range n := by
  rw [List.range_eq_range', List.range_eq_range']
  have := List.range'_append_1 (s := 0) (m := m) (n := n - m)
  rwa [Nat.zero_add, Nat.add_sub_cancel' h] at this

/-- Two orders hand out the same slot when they come to the same segment first. -/
theorem Tidy.vacancyAmong?_eq_iff (h : t.Tidy) {is js : List Nat} :
    t.vacancyAmong? is = t.vacancyAmong? js ↔ is.find? t.roomAt = js.find? t.roomAt := by
  rw [h.usable.vacancyAmong?_eq h.capacity_le is, h.usable.vacancyAmong?_eq h.capacity_le js]
  constructor
  · intro heq
    cases hi : is.find? t.roomAt with
    | none =>
      cases hj : js.find? t.roomAt with
      | none => rfl
      | some j =>
        obtain ⟨_, w, -, -, hw⟩ :=
          h.usable.vacancyAmong?_singleton h.capacity_le (List.find?_some hj)
        simp [hi, hj, hw] at heq
    | some i =>
      obtain ⟨_, v, -, -, hv⟩ := h.usable.vacancyAmong?_singleton h.capacity_le (List.find?_some hi)
      cases hj : js.find? t.roomAt with
      | none => simp [hi, hj, hv] at heq
      | some j =>
        obtain ⟨_, w, -, -, hw⟩ :=
          h.usable.vacancyAmong?_singleton h.capacity_le (List.find?_some hj)
        simp only [hi, hj, hv, hw, Except.ok.injEq, Option.some.injEq, Prod.mk.injEq] at heq
        rw [heq.1]
  · intro heq
    rw [heq]

/-- It makes no difference to start from the first segment unless there is room on both sides. -/
theorem Tidy.vacancyAmong?_range_eq_iff (h : t.Tidy) :
    t.vacancyAmong? (List.range t.segments.size) = t.vacancy? ↔ ¬t.RoomOnBothSides := by
  have hbefore : (List.range t.hint).find? t.roomAt = none ↔
      ¬∃ i, i < t.hint ∧ t.roomAt i = true := by
    rw [List.find?_eq_none]
    simp
  have hfrom : (List.range' t.hint (t.segments.size - t.hint)).find? t.roomAt = none ↔
      ¬∃ j, t.hint ≤ j ∧ t.roomAt j = true := by
    rw [List.find?_eq_none]
    constructor
    · intro hnone hex
      obtain ⟨j, hj, hroom⟩ := hex
      have := lt_size_of_roomAt hroom
      exact hnone j (List.mem_range'_1.2 (by omega)) hroom
    · intro hnone j hj hroom
      exact hnone ⟨j, (List.mem_range'_1.1 hj).1, hroom⟩
  rw [vacancy?, h.vacancyAmong?_eq_iff, h.trialOrder_eq, ← range_append_range' h.hint_le,
    List.find?_append, List.find?_append, RoomOnBothSides, not_and_or, ← hbefore, ← hfrom]
  -- the first one with room is looked for in two parts, one before and one from the hint on
  cases hi : (List.range t.hint).find? t.roomAt with
  | none => simp
  | some i =>
    cases hj : (List.range' t.hint (t.segments.size - t.hint)).find? t.roomAt with
    | none => simp
    | some j =>
      have hlt := List.mem_range.1 (List.mem_of_find?_eq_some hi)
      have hle := (List.mem_range'_1.1 (List.mem_of_find?_eq_some hj)).1
      simp only [Option.some_or, Option.some.injEq, reduceCtorEq, or_self, iff_false]
      omega

theorem vacancyAmong?_hint (t : Arena) (n : Nat) (is : List Nat) :
    ({ t with hint := n } : Arena).vacancyAmong? is = t.vacancyAmong? is := by
  induction is with
  | nil => rfl
  | cons i is ih => simp only [vacancyAmong?, ih]

/-- Before the first segment that has room there is none. -/
theorem not_roomOnBothSides_refreshHint (t : Arena) : ¬t.refreshHint.RoomOnBothSides := by
  intro hboth
  obtain ⟨⟨i, hi, hroom⟩, -⟩ := hboth
  obtain ⟨s, hs, hroom⟩ := (Option.any_eq_true _ _).1 hroom
  rw [refreshHint] at hi hs hroom
  cases hfirst : t.segments.findIdx? (·.hasRoom t.capacity) with
  | none =>
    simp only [hfirst] at hs hroom
    have := Array.findIdx?_eq_none_iff.1 hfirst s (Array.mem_of_getElem? hs)
    simp [this] at hroom
  | some r =>
    simp only [hfirst] at hi hs hroom
    obtain ⟨hr, -, hbefore⟩ := Array.findIdx?_eq_some_iff_getElem.1 hfirst
    obtain ⟨hlt, rfl⟩ := Array.getElem?_eq_some_iff.1 hs
    exact hbefore i hi hroom

/-- Starting from the first segment that has room is starting from the first segment. -/
theorem Tidy.vacancy?_refreshHint (h : t.Tidy) :
    t.refreshHint.vacancy? = t.vacancyAmong? (List.range t.segments.size) := by
  have hfirst := not_roomOnBothSides_refreshHint t
  rw [← (Dump.tidy_refreshHint h).vacancyAmong?_range_eq_iff.2 hfirst, refreshHint]
  split
  · exact vacancyAmong?_hint t _ _
  · rfl

/-- Arenas with the same slots that hand out the same address hand out the same slot. -/
theorem Tidy.vacancy?_eq_of_addressAt (h : t.Tidy) (h' : t'.Tidy)
    (htwin : ∃ n, t' = { t with hint := n })
    (hsame : ∀ v v', t.vacancy? = .ok (some v) → t'.vacancy? = .ok (some v') →
      addressAt v'.1 v'.2.offset = addressAt v.1 v.2.offset) : t'.vacancy? = t.vacancy? := by
  obtain ⟨n, rfl⟩ := htwin
  have hlt : ∀ i, t.roomAt i = true → i < 65535 := fun i hi => by
    have := lt_size_of_roomAt hi
    have := h.size_le
    have := h.maxSegments_le
    omega
  rcases h.vacancy?_cases with ⟨i, g, v, hi, hg, hv, hw⟩ | ⟨hw, hfull⟩
  · rcases h'.vacancy?_cases with ⟨i', g', v', hi', hg', hv', hw'⟩ | ⟨-, hfull'⟩
    · -- the two addresses are in one segment, which has one slot to hand out
      have haddress := (eq_addressAt_iff (hlt i hi)).1 (hsame _ _ hw hw')
      rw [toNat_addressAt (hlt i' hi')] at haddress
      obtain rfl : i' = i := by omega
      have hgg : g' = g := Option.some.inj (hg'.symm.trans hg)
      subst hgg
      have hvv : v' = v := by
        have := hv'.symm.trans hv
        simpa using this
      rw [hw, hw', hvv]
    · have hno : t.roomAt i = false := hfull' i
      simp [hi] at hno
  · rcases h'.vacancy?_cases with ⟨i', g', v', hi', -⟩ | ⟨hw', -⟩
    · have hyes : t.roomAt i' = true := hi'
      simp [hfull i'] at hyes
    · rw [hw, hw']

/-! ## Limits -/

theorem maxSegments_update (t : Arena) (a : Address) (f : Element → Element) :
    (t.update a f).maxSegments = t.maxSegments := by
  rw [Arena.update]
  split <;> rfl

/-- The limit of an arena never changes. -/
theorem lockstep_maxSegments (m : Nat) : Lockstep fun t t' => t' = t ∧ t.maxSegments = m :=
  lockstep_of_kept (fun t a f h => (maxSegments_update t a f).trans h) (fun _ _ _ h => h)
    (fun _ _ h => h) (fun _ _ h => h)

end Arena

/-! ## Operations -/

namespace Action

variable {R : Arena → Arena → Prop} {s s' : Store}

open Arena.Lockstep

/-- An operation that changes elements only can not tell stores with the same elements apart. -/
theorem respects_of_not_isStructural (h : Arena.Parallel R) {k : Action} (hk : ¬k.IsStructural) :
    Step.Respects (OfStores R) k.run := by
  cases k with
  | addNode | addLink | connect | erase => exact absurd trivial hk
  | narrow a type => exact (h.narrow a type).map _
  | setAccess a access => exact (h.setAccess a access).map _
  | setContent a bytes => exact (h.setContent a bytes).map _
  | commit x =>
    refine Step.Respects.map (fun s s' hs => ?_) _
    obtain ⟨houtcome, -, hstores⟩ := h.commit (x, s) (x, s') ⟨rfl, hs⟩
    exact ⟨houtcome, hstores⟩

/-- An operation can not tell stores apart that no part of it tells apart. -/
theorem respects (h : Arena.Lockstep R) (k : Action) : Step.Respects (OfStores R) k.run := by
  cases k with
  | addNode type access => exact (Arena.Aligned.addNode (fun e _ => h.allocate e) type access).map _
  | addLink type access => exact (Arena.Aligned.addLink (fun e _ => h.allocate e) type access).map _
  | connect type source target access =>
    exact (h.connect (fun e _ => h.allocate e) type source target access).map _
  | erase a => exact (h.erase h.free a).map _
  | narrow | setAccess | setContent | commit =>
    exact respects_of_not_isStructural h.toParallel not_false

/-- Nor can operations that follow each other. -/
theorem runAll_eq (h : Arena.Lockstep R) (ks : List Action) (hs : OfStores R s s') :
    (runAll ks s').1 = (runAll ks s).1 := by
  induction ks generalizing s s' with
  | nil => rfl
  | cons k ks ih =>
    obtain ⟨houtcome, hstores⟩ := respects h k s s' hs
    simp only [runAll, houtcome, ih hstores]

end Action

/-! ## What was restored -/

namespace Dump

variable {settings : Settings} {s : Store} {t : Arena} {contents : Contents byteHash}

/-- An arena within the limits of the settings is loaded as it was, but for the hint. -/
theorem loadedArena_eq (ht : t.Tidy) (hmax : t.maxSegments = max settings.maxSegments.toNat 1) :
    loadedArena settings t = { t with hint := 0 } := by
  have hlimit : (loadedArena settings t).maxSegments = t.maxSegments := by
    have hsize := ht.size_le
    have hle := ht.maxSegments_le
    show max (max settings.maxSegments (.ofNat t.segments.size)).toNat 1 = t.maxSegments
    rw [toNat_max, toNat_ofNat_of_le (Nat.le_trans hsize hle)]
    omega
  rw [← hlimit, ← capacity_loadedArena settings ht.capacity_pos ht.capacity_le]
  rfl

theorem arena_restored (contents : Contents byteHash) (ht : s.arena.Tidy)
    (hmax : s.arena.maxSegments = max settings.maxSegments.toNat 1) :
    ∃ n, (restored settings s contents).arena = { s.arena with hint := n } := by
  show ∃ n, (loadedArena settings s.arena).refreshHint = _
  rw [loadedArena_eq ht hmax, Arena.refreshHint]
  split
  · exact ⟨_, rfl⟩
  · exact ⟨_, rfl⟩

/-- What was restored hands out the same slot unless there is room on both sides. -/
theorem alike_restored_iff (ht : s.arena.Tidy)
    (hmax : s.arena.maxSegments = max settings.maxSegments.toNat 1) :
    s.arena.Alike (restored settings s contents).arena ↔ ¬s.arena.RoomOnBothSides := by
  have hvacancy : (restored settings s contents).arena.vacancy?
      = s.arena.vacancyAmong? (List.range s.arena.segments.size) := by
    show (loadedArena settings s.arena).refreshHint.vacancy? = _
    rw [(tidy_loadedArena ht).vacancy?_refreshHint, loadedArena_eq ht hmax]
    exact Arena.vacancyAmong?_hint _ _ _
  rw [← ht.vacancyAmong?_range_eq_iff, ← hvacancy]
  exact ⟨fun h => h.vacancy, fun h => ⟨arena_restored contents ht hmax, h⟩⟩

end Dump

namespace Reached

variable {c : Settings} {made : List Address} {s : Store}

/-- The limit of a store that is reached is that of its settings. -/
theorem maxSegments_eq (h : Reached (· = c) made s) :
    s.arena.maxSegments = max c.maxSegments.toNat 1 := by
  induction h with
  | fresh hc =>
    subst hc
    rfl
  | @act made s k _ _ ih => exact (k.respects (Arena.lockstep_maxSegments _) s s ⟨rfl, ih⟩).2.2
  | counted _ _ ih => exact ih
  | @loaded made s s' c' y check hc h hload ih =>
    subst hc
    obtain ⟨contents, rfl, -⟩ := Dump.restored_of_decode h.atRest hload
    show (Dump.loadedArena c' s.arena).refreshHint.maxSegments = _
    rw [Dump.loadedArena_eq h.atRest.sound.tidy ih, Arena.refreshHint]
    split <;> exact ih

end Reached

/-! ## Where the next element comes to stand -/

/-- A new node comes to stand in the slot that is handed out next. -/
theorem Action.addNode_answer {s : Store} {v : Arena.Vacancy}
    (hv : s.arena.vacancy? = .ok (some v)) :
    ((Action.addNode .const .lowest).run.on s).1
      = .ok (.made (Arena.addressAt v.1 v.2.offset)) := by
  have hallocate : ∀ e, ((Arena.allocate e).on s.arena)
      = (.ok (Arena.addressAt v.1 v.2.offset), s.arena.occupy e v) := by
    intro e
    simp only [Arena.allocate, Step.on_bind, Step.on_ask, hv, Step.on_change, Step.on_pure]
  have hinsert : ∀ e, ((Store.insert e).on s).1 = .ok (Arena.addressAt v.1 v.2.offset) := by
    intro e
    rw [(Store.insert_on e s).1, hallocate]
  have hnode : Store.addNode .const .lowest
      = Store.insert { type := .const ||| .node, access := .lowest } := rfl
  rw [Action.run, Step.on_map, hnode, hinsert]
  rfl

namespace Store

/-- Making and erasing elements comes to the same in `s'` as in `s`, step by step. -/
def AnswersAs (s s' : Store) : Prop :=
  ∀ ks : List Action, (∀ k ∈ ks, k.Admissible ∧ k.IsStructural) →
    (Action.runAll ks s').1 = (Action.runAll ks s).1

theorem AnswersAs.addNode {s s' : Store} (h : s.AnswersAs s') :
    ((Action.addNode .const .lowest).run.on s').1
      = ((Action.addNode .const .lowest).run.on s).1 := by
  have hks := h [.addNode .const .lowest]
    (by simp [Action.Admissible, Action.IsStructural, Access.inUse_lowest])
  exact (List.cons_eq_cons.1 hks).1

/-- Stores with the same slots answer alike just when they hand out the same one next. -/
theorem answersAs_iff {s s' : Store} (ht : s.arena.Tidy) (ht' : s'.arena.Tidy)
    (htwin : ∃ h, s'.arena = { s.arena with hint := h }) :
    s.AnswersAs s' ↔ s.arena.Alike s'.arena := by
  constructor
  · -- making one node tells which slot was handed out
    intro h
    refine ⟨htwin, ht.vacancy?_eq_of_addressAt ht' htwin fun v v' hv hv' => ?_⟩
    have hnode := h.addNode
    rw [Action.addNode_answer hv, Action.addNode_answer hv'] at hnode
    simpa using hnode
  · intro h ks _
    exact Action.runAll_eq Arena.lockstep_alike ks h

end Store

namespace Reached

variable {c : Settings} {made : List Address} {s : Store}

/-- Whatever was reached, its dump is loaded under its own settings, and the store that comes back
goes on as the old one would have done just when there is not room both before the segment that is
tried first and from there on. -/
theorem restore_transparent_iff (h : Reached (· = c) made s)
    (hfit : ∀ a bytes, s.contents.get? a = some bytes → bytes.length < 2 ^ 32)
    (check : Bytes → UInt32) :
    ∃ s', Dump.decode check c (Dump.encode check s)
        = .ok (s', Dump.summarize s (Dump.encode check s)) ∧
      (s.AnswersAs s' ↔ ¬s.arena.RoomOnBothSides) := by
  have hrest := h.atRest
  obtain ⟨contents, -, hdecode⟩ := Dump.decode_encode c check hrest hfit
  have hback := Dump.atRest_of_decode hrest hdecode
  have htwin := Dump.arena_restored contents hrest.sound.tidy h.maxSegments_eq
  refine ⟨_, hdecode, ?_⟩
  rw [Store.answersAs_iff hrest.sound.tidy hback.sound.tidy htwin]
  exact Dump.alike_restored_iff hrest.sound.tidy h.maxSegments_eq

theorem restore_transparent_iff_sampleStore :
    (∀ a bytes, sampleStore.contents.get? a = some bytes → bytes.length < 2 ^ 32) ∧
    ∃ s', Dump.decode Crc32.check .small (Dump.encode Crc32.check sampleStore)
        = .ok (s', Dump.summarize sampleStore (Dump.encode Crc32.check sampleStore)) ∧
      (sampleStore.AnswersAs s' ↔ ¬sampleStore.arena.RoomOnBothSides) :=
  ⟨contents_sampleStore,
    reached_sampleStore.restore_transparent_iff contents_sampleStore Crc32.check⟩

end Reached

/-! ## Room on both sides -/

def narrowSettings : Settings := { maxSegments := 4, segmentCapacity := 2 }

/-- Four nodes that fill two segments, and the erasure of the first node of each. -/
def halvingActions : List Action :=
  [.addNode .const .lowest, .addNode .const .lowest, .addNode .const .lowest,
    .addNode .const .lowest, .erase ⟨1, 1⟩, .erase ⟨2, 1⟩]

def halvedStore : Store := (Action.runAll halvingActions (.ofSettings narrowSettings)).2

theorem reached_halvedStore : ∃ made, Reached (· = narrowSettings) made halvedStore := by
  exact ⟨_, (@Reached.fresh (· = narrowSettings) _ rfl).runAll
    (by simp [halvingActions, Action.Admissible, Access.inUse_lowest])⟩

/-- With room in both segments the old store goes on in the second one, where it erased last, and
the one that comes back goes on in the first one. -/
theorem restore_not_transparent :
    ¬∀ (c : Settings) (made : List Address) (s : Store), Reached (· = c) made s →
      (∀ a bytes, s.contents.get? a = some bytes → bytes.length < 2 ^ 32) →
      ∃ s' y, Dump.decode Crc32.check c (Dump.encode Crc32.check s) = .ok (s', y) ∧
        s.AnswersAs s' := by
  intro htransparent
  obtain ⟨made, hreached⟩ := reached_halvedStore
  have hcontents : halvedStore.contents.toList = [] := by decide +kernel
  obtain ⟨s', y, hdecode, hanswers⟩ := htransparent _ _ halvedStore hreached fun a bytes hget => by
    rw [← Contents.mem_toList, hcontents] at hget
    cases hget
  have hbefore : halvedStore.arena.vacancy? = .ok (some (1, .reused 1 0)) := by decide +kernel
  have hafter : s'.arena.vacancy? = .ok (some (0, .reused 1 0)) := by
    obtain ⟨contents, rfl, -⟩ := Dump.restored_of_decode hreached.atRest hdecode
    show (Dump.loadedArena narrowSettings halvedStore.arena).refreshHint.vacancy? = _
    decide +kernel
  have hnode := hanswers.addNode
  rw [Action.addNode_answer hbefore, Action.addNode_answer hafter] at hnode
  revert hnode
  decide

end SemanticNet
