import SemanticNet.Proofs.Natures

/-!
# What is counted

The census of a store and its metrics are written by the way, one element at a time, while types
change in between. As long as every element is of a known kind they agree with what there is: the
census is the tally of the elements, and what was made is what was erased and what is left
(`Store.Counted`). Every operation keeps it so, whether it fails or not, and whatever the rings and
free chains are like (`Action.keeps_counted`).
-/

namespace SemanticNet

open scoped List

/-! ## Metrics -/

/-- Whether metrics are counted, and what there was when that began: the elements of each kind, and
the segments. -/
structure Opening where
  counting : Bool
  elements : Kind → Nat
  segments : Nat

namespace Metrics

variable {m : Metrics} {n : Nat} {e : Event} {k : Kind} {b : Opening} {t : Arena}

/-- The elements of a kind that came to life. -/
def created (m : Metrics) : Kind → Nat
  | .node => m.nodesCreated
  | .link => m.linksCreated
  | .connector => m.connectorsCreated

/-- The elements of a kind that are gone. -/
def erased (m : Metrics) : Kind → Nat
  | .node => m.nodesErased
  | .link => m.linksErased
  | .connector => m.connectorsErased

theorem created_count :
    (m.count n e).created k = m.created k + if e = .created k then n else 0 := by
  rcases e with (_ | _ | _) | (_ | _ | _) | _ | _ | (_ | _) <;> cases k <;> rfl

theorem erased_count : (m.count n e).erased k = m.erased k + if e = .erased k then n else 0 := by
  rcases e with (_ | _ | _) | (_ | _ | _) | _ | _ | (_ | _) <;> cases k <;> rfl

theorem segmentsAllocated_count : (m.count n e).segmentsAllocated
    = m.segmentsAllocated + if e = .segmentAdded then n else 0 := by
  rcases e with (_ | _ | _) | (_ | _ | _) | _ | _ | (_ | _) <;> rfl

/-- The metrics have counted what became of the elements and segments that there were. -/
structure Balances (m : Metrics) (b : Opening) (t : Arena) : Prop where
  elements : ∀ k, m.created k + b.elements k = m.erased k + t.liveOf k
  segments : m.segmentsAllocated + b.segments = t.segments.size

/-- Other events do not count here. -/
theorem Balances.count (h : m.Balances b t) (hcreated : ∀ k, e ≠ .created k)
    (herased : ∀ k, e ≠ .erased k) (hsegment : e ≠ .segmentAdded) :
    (m.count n e).Balances b t where
  elements k := by
    rw [created_count, erased_count, if_neg (hcreated k), if_neg (herased k)]
    exact h.elements k
  segments := by
    rw [segmentsAllocated_count, if_neg hsegment]
    exact h.segments

end Metrics

/-! ## Kinds that come and go -/

namespace Arena

variable {t t' : Arena} {a : Address} {k l : Kind}

theorem liveOf_of_perm (h : t'.kinds ~ t.kinds) : t'.liveOf k = t.liveOf k := by
  rw [← count_kinds, ← count_kinds]
  exact (h.map Prod.snd).count_eq k

theorem liveOf_of_perm_cons (h : t'.kinds ~ (a, l) :: t.kinds) :
    t'.liveOf k = t.liveOf k + if l = k then 1 else 0 := by
  rw [← count_kinds, ← count_kinds, (h.map Prod.snd).count_eq k, List.map_cons, List.count_cons]
  simp

end Arena

namespace Store

variable {s s' : Store} {a : Address} {e : Element} {n : Nature} {b : Opening} {t : Arena}

/-- The store is regular, its elements are of known kinds and have ends as these require, the census
is the tally of the elements, and the metrics, if they are counted, balance. -/
structure Counted (b : Opening) (s : Store) : Prop where
  regular : s.Regular
  clear : ∀ a n, s.arena.nature? a = some n → n.Clear
  census : s.census = Census.tally (s.arena.kinds.map Prod.snd)
  counting : s.metrics.isSome = b.counting
  metrics : ∀ m ∈ s.metrics, m.Balances b s.arena

/-- What there is when counting begins, or would begin. -/
def opening (s : Store) : Opening := ⟨s.metrics.isSome, s.arena.liveOf, s.arena.segments.size⟩

/-- At the beginning the metrics are blank. -/
theorem counted_opening (hregular : s.Regular)
    (hclear : ∀ a n, s.arena.nature? a = some n → n.Clear)
    (hcensus : s.census = Census.tally (s.arena.kinds.map Prod.snd))
    (hmetrics : ∀ m ∈ s.metrics, m = {}) : s.Counted s.opening := by
  refine ⟨hregular, hclear, hcensus, rfl, fun m hm => ?_⟩
  obtain rfl := hmetrics m hm
  exact ⟨fun k => by cases k <;> rfl, Nat.zero_add _⟩

/-- What is counted stays right while the kinds stay. -/
theorem Counted.of_kind? (h : s.Counted b) (hregular : s'.Regular)
    (hclear : ∀ a n, s'.arena.nature? a = some n → n.Clear)
    (hkind : ∀ a, s'.arena.kind? a = s.arena.kind? a)
    (hsize : s'.arena.segments.size = s.arena.segments.size) (hcensus : s'.census = s.census)
    (hmetrics : s'.metrics = s.metrics) : s'.Counted b := by
  have hperm := (Arena.Regular.addressable h.regular).kinds_perm
    (Arena.Regular.addressable hregular) hkind
  refine ⟨hregular, hclear, ?_, hmetrics ▸ h.counting, fun m hm => ?_⟩
  · rw [hcensus, h.census]
    exact (Census.tally_perm (hperm.map _)).symm
  · have hbalances := h.metrics m (hmetrics ▸ hm)
    exact ⟨fun k => by rw [Arena.liveOf_of_perm hperm]; exact hbalances.elements k,
      hbalances.segments.trans hsize.symm⟩

/-- Splicing and marking change nothing that is counted. -/
theorem Counted.shows (h : s.Counted b)
    (ht : t.Shows s.arena.segments.size s.arena.nature?) :
    ({ s with arena := t } : Store).Counted b := by
  refine h.of_kind? ht.regular (fun a n hn => h.clear a n ((ht.nature? a).symm.trans hn))
    (fun a => ?_) ht.size rfl rfl
  rw [Arena.kind?_eq_nature?, Arena.kind?_eq_nature?, ht.nature?]

/-- Types that are narrowed are counted as before. -/
theorem Counted.amended (h : s.Counted b) (ha : s.Amended s') (hregular : s'.Regular) :
    s'.Counted b := by
  have hbecomes : ∀ a n, s'.arena.nature? a = some n →
      ∃ m, s.arena.nature? a = some m ∧ m.Becomes n := by
    intro a n hn
    obtain ⟨e', he', rfl⟩ := Arena.nature?_eq_some_iff.1 hn
    obtain ⟨e, he, hm⟩ := ha.find? he'
    exact ⟨e.nature, Arena.nature?_of_find? he, hm⟩
  refine h.of_kind? hregular (fun a n hn => ?_) (fun a => ?_) ha.size ha.census ha.metrics
  · obtain ⟨m, hm, hmn⟩ := hbecomes a n hn
    exact (h.clear a m hm).becomes hmn
  · rw [Arena.kind?_eq_nature?, Arena.kind?_eq_nature?]
    cases hn : s'.arena.nature? a with
    | none =>
      cases hm : s.arena.nature? a with
      | none => rfl
      | some m =>
        obtain ⟨n, hn', -⟩ := ha.persists a m hm
        cases hn.symm.trans hn'
    | some n =>
      obtain ⟨m, hm, hmn⟩ := hbecomes a n hn
      have hmould := hmn.type.mould (h.clear a m hm).kind
      rw [hm, Option.map_some, Option.map_some, ElementType.sort_of_mould hmould]

/-- What is counted stays right when an element is added and counted. -/
theorem Counted.added (h : s.Counted b) (hregular : s'.Regular) (hn : n.Clear)
    (hfresh : s.arena.nature? a = none)
    (hnature : ∀ c, s'.arena.nature? c = if c = a then some n else s.arena.nature? c)
    (hsize : s.arena.segments.size ≤ s'.arena.segments.size)
    (hcensus : s'.census = s.census.add n.type.sort)
    (hmetrics : s'.metrics = s.metrics.map fun m =>
      (m.count (s'.arena.segments.size - s.arena.segments.size) .segmentAdded).count 1
        (.created n.type.sort)) : s'.Counted b := by
  have hnone : s.arena.kind? a = none := by
    rw [Arena.kind?_eq_nature?, hfresh]
    rfl
  have hkind : ∀ c, s'.arena.kind? c = if c = a then some n.type.sort else s.arena.kind? c := by
    intro c
    rw [Arena.kind?_eq_nature?, hnature]
    split
    · rfl
    · exact Arena.kind?_eq_nature?.symm
  have hperm := (Arena.Regular.addressable h.regular).kinds_perm_cons
    (Arena.Regular.addressable hregular) hnone hkind
  refine ⟨hregular, fun c l hl => ?_, ?_, ?_, fun m' hm' => ?_⟩
  · rw [hnature] at hl
    split at hl
    · exact Option.some.inj hl ▸ hn
    · exact h.clear c l hl
  · rw [hcensus, h.census, Census.tally_perm (hperm.map Prod.snd)]
    exact Census.tally_cons.symm
  · rw [hmetrics, Option.isSome_map]
    exact h.counting
  · rw [hmetrics] at hm'
    obtain ⟨m, hm, rfl⟩ := Option.map_eq_some_iff.1 hm'
    have hbalances := h.metrics m hm
    constructor
    · intro k
      have hbefore := hbalances.elements k
      simp only [Metrics.created_count, Metrics.erased_count, Arena.liveOf_of_perm_cons hperm,
        Event.created.injEq, reduceCtorEq, if_false]
      omega
    · have hbefore := hbalances.segments
      simp only [Metrics.segmentsAllocated_count, reduceCtorEq, if_true, if_false]
      omega

/-- What is counted stays right when an element is taken away and counted. -/
theorem Counted.removed (h : s.Counted b) (hregular : s'.Regular)
    (hn : s.arena.nature? a = some n)
    (hnature : ∀ c, s'.arena.nature? c = if c = a then none else s.arena.nature? c)
    (hsize : s'.arena.segments.size = s.arena.segments.size)
    (hcensus : s'.census = s.census.remove n.type.sort)
    (hmetrics : s'.metrics = s.metrics.map (·.count 1 (.erased n.type.sort))) :
    s'.Counted b := by
  have hnone : s'.arena.kind? a = none := by
    rw [Arena.kind?_eq_nature?, hnature, if_pos rfl]
    rfl
  -- the old store is the new one with the element added
  have hkind : ∀ c, s.arena.kind? c = if c = a then some n.type.sort else s'.arena.kind? c := by
    intro c
    rw [Arena.kind?_eq_nature?, Arena.kind?_eq_nature?, hnature]
    split
    next hca =>
      rw [hca, hn]
      rfl
    next => rfl
  have hperm := (Arena.Regular.addressable hregular).kinds_perm_cons
    (Arena.Regular.addressable h.regular) hnone hkind
  refine ⟨hregular, fun c l hl => ?_, ?_, ?_, fun m' hm' => ?_⟩
  · rw [hnature] at hl
    split at hl
    · cases hl
    · exact h.clear c l hl
  · rw [hcensus, h.census, Census.tally_perm (hperm.map Prod.snd), List.map_cons,
      Census.tally_cons, Census.remove_add]
  · rw [hmetrics, Option.isSome_map]
    exact h.counting
  · rw [hmetrics] at hm'
    obtain ⟨m, hm, rfl⟩ := Option.map_eq_some_iff.1 hm'
    have hbalances := h.metrics m hm
    constructor
    · intro k
      have hbefore := hbalances.elements k
      rw [Arena.liveOf_of_perm_cons hperm] at hbefore
      simp only [Metrics.created_count, Metrics.erased_count, Event.erased.injEq, reduceCtorEq,
        if_false]
      omega
    · have hbefore := hbalances.segments
      simp only [Metrics.segmentsAllocated_count, reduceCtorEq, if_false]
      omega

/-- An event that is none of these changes nothing that is counted here. -/
theorem Counted.count (h : s.Counted b) {ev : Event} (hcreated : ∀ k, ev ≠ .created k)
    (herased : ∀ k, ev ≠ .erased k) (hsegment : ev ≠ .segmentAdded) (i : Nat) :
    (s.count ev i).Counted b := by
  refine ⟨h.regular, h.clear, h.census, Option.isSome_map.trans h.counting, fun m' hm' => ?_⟩
  obtain ⟨m, hm, rfl⟩ := Option.map_eq_some_iff.1 hm'
  exact (h.metrics m hm).count hcreated herased hsegment

/-! ## Creations -/

theorem keeps_counted_insert (he : e.nature.Clear) :
    Step.Keeps (Counted b) (insert e) := by
  intro s h
  have hregular := Arena.Regular.allocate h.regular (e := e)
    (ElementType.isUnknown_of_kind he.kind)
  have hlimits := ((Arena.lockstep_limits s.arena.maxSegments s.arena.segments.size).allocate e
    s.arena s.arena ⟨rfl, rfl, le_rfl⟩).2.2.2
  show (insert e s).2.Counted b
  rcases Arena.Regular.allocate_cases h.regular e with ⟨a, t, hrun, hplaced⟩ | ⟨hrun, -⟩ |
    ⟨hrun, -⟩
  · rw [hrun] at hregular hlimits
    simp only [Machinery.insert, onArena_of_on hrun]
    refine h.added (a := a) (n := e.nature) hregular he ?_ hplaced.nature? hlimits rfl ?_
    · exact Arena.nature?_eq_none_iff.2 hplaced.fresh
    · exact Option.map_map _ _ _
  · simp only [Machinery.insert, onArena_of_on hrun]
    exact h.count (by simp) (by simp) (by simp) 1
  · simp only [Machinery.insert, onArena_of_on hrun]
    exact h

theorem keeps_counted_make (he : e.nature.Clear) : Step.Keeps (Counted b) (make e) := by
  have hattach : ∀ c, Step.Keeps (Counted b) (onArena (attachAll c e.places)) :=
    fun c s h => h.shows (Arena.Regular.shows_of_aligned h.regular fun hR => hR.attachAll)
  exact (keeps_counted_insert he).bind fun c => (hattach c).bind fun _ => Step.keeps_pure c

/-! ## Erasures -/

theorem dropContent_fields (a : Address) (type : ElementType) (s : Store) :
    (dropContent a type s).arena = s.arena ∧ (dropContent a type s).census = s.census ∧
      (dropContent a type s).metrics = s.metrics := by
  rw [dropContent]
  split <;> exact ⟨rfl, rfl, rfl⟩

/-- An element is freed and counted as what it was when it was found. -/
theorem keeps_counted_release (a : Address) : Step.Keeps (Counted b) (release a) := by
  intro s h
  rw [Store.release, Machinery.release, Step.on_bind, Step.on_ask]
  cases hfetch : s.arena.fetch a with
  | error f => exact h
  | ok e =>
    have he := Arena.fetch_ok_iff.1 hfetch
    dsimp only
    split
    · exact h
    have hshows := Arena.Regular.shows_of_aligned h.regular (x := Arena.detachAll a e.places)
      fun hR => hR.detachAll
    rw [Step.on_bind, on_onArena]
    generalize (Arena.detachAll a e.places).on s.arena = x at hshows
    obtain ⟨r, t⟩ := x
    have hdetached := h.shows hshows
    cases r with
    | error f => exact hdetached
    | ok u =>
      -- the content goes, then the slot, and then it is counted
      obtain ⟨harena, hcensus, hmetrics⟩ := dropContent_fields a e.type { s with arena := t }
      have hn : t.nature? a = some e.nature :=
        (hshows.nature? a).trans (Arena.nature?_of_find? he)
      obtain ⟨t', hrun, hregular, hsize, hnature⟩ := hshows.regular.free_nature? hn
      simp only [Step.on_bind, Step.on_change, on_onArena, harena, hrun]
      exact hdetached.removed hregular hn hnature hsize
        (congrArg (·.remove e.type.sort) hcensus)
        (congrArg (Option.map fun m : Metrics => m.count 1 (.erased e.type.sort)) hmetrics)

theorem keeps_counted_erase (a : Address) : Step.Keeps (Counted b) (erase a) := by
  -- marks change no nature
  have haligned := fun s : Store => Arena.aligned_shows s.arena.segments.size s.arena.nature?
  refine keeps_erase keeps_counted_release (fun s x h => ?_) (fun s marked h => ?_) a
  · exact h.shows ((haligned s).sweep (x := x) ⟨rfl, h.regular, rfl, fun _ => rfl⟩).2.2.2
  · have hunmarked : (s.arena.unmark marked).Shows s.arena.segments.size s.arena.nature? :=
      ((haligned s).unmark ⟨rfl, h.regular, rfl, fun _ => rfl⟩).2
    exact h.shows hunmarked

end Store

/-- Every operation keeps right what is counted. -/
theorem Action.keeps_counted {b : Opening} (k : Action) : Step.Keeps (Store.Counted b) k.run := by
  intro s h
  rcases k.isStructural_cases with hquiet | ⟨e, he⟩ | ⟨a, rfl⟩
  · exact h.amended (amends hquiet) (k.keeps_regular s h.regular)
  · rcases creation_cases s he with ⟨f, hrun⟩ | ⟨htyped, hrun⟩
    · rw [hrun]
      exact h
    · rw [hrun]
      exact (Store.keeps_counted_make (clear_of_typed he htyped)).map _ s h
  · exact (Store.keeps_counted_erase a).map _ s h

end SemanticNet
