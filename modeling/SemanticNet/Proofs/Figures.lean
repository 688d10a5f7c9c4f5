import SemanticNet.Proofs.Counting
import SemanticNet.Walk.Quintuples

/-!
# The figures of a store

What a store says of itself is so, whatever reached it (`Reached.figures_right`): it has as many
elements of each kind as it says and as many vacant slots, an erasure takes no count below zero, and
the metrics of a store that was never loaded say of each kind what was made and what was erased.
-/

namespace SemanticNet

open scoped List

/-! ## Elements and slots -/

namespace Arena

variable {t t' : Arena} {k : Kind} {as : List Address}

/-- Every element is of one of the kinds. -/
theorem length_elements_eq (t : Arena) :
    t.elements.length = t.liveOf .node + t.liveOf .link + t.liveOf .connector := by
  have hcount : ∀ ks : List Kind,
      ks.length = ks.count .node + ks.count .link + ks.count .connector := by
    intro ks
    induction ks with
    | nil => rfl
    | cons k ks ih => cases k <;> simp [ih] <;> omega
  have hkinds := hcount (t.kinds.map Prod.snd)
  rwa [List.length_map, kinds, List.length_map, ← kinds, count_kinds, count_kinds,
    count_kinds] at hkinds

/-- The slots of the engaged segments are occupied or vacant. -/
theorem Tidy.length_elements_add_vacant (h : t.Tidy) :
    t.elements.length + t.vacant = t.segments.size * t.capacity := by
  have hlive : t.elements.length = (t.segments.toList.map (·.live)).sum := by
    have hmap : (t.segments.toList.zipIdx 1).map (fun p => p.1.live)
        = t.segments.toList.map (·.live) := by
      rw [← List.zipIdx_map_fst 1 t.segments.toList, List.map_map, List.zipIdx_map_fst]
      rfl
    rw [elements, List.length_flatMap, ← hmap]
    refine congrArg List.sum (List.map_congr_left fun p hp => ?_)
    obtain ⟨-, hget⟩ := List.mk_mem_zipIdx_iff_le_and_getElem?_sub.1 hp
    rw [Array.getElem?_toList] at hget
    rw [List.length_map, p.1.length_elements, (h.sound _ _ hget).live_eq]
  have hvacant : t.vacant = (t.segments.toList.map fun s => t.capacity - s.live).sum := by
    rw [vacant, ← Array.foldl_toList, List.sum_eq_foldl, List.foldl_map]
  have hslots : t.segments.toList.map (fun s => s.live + (t.capacity - s.live))
      = List.replicate t.segments.size t.capacity := by
    rw [← Array.length_toList, ← List.map_const']
    refine List.map_congr_left fun s hs => ?_
    obtain ⟨i, hi⟩ := List.getElem?_of_mem hs
    rw [Array.getElem?_toList] at hi
    have hsound := h.sound i s hi
    have := hsound.size_le
    have := hsound.live_eq
    have : s.slots.countP (·.isLive) ≤ s.slots.size := Array.countP_le_size
    omega
  rw [hlive, hvacant, ← List.sum_map_add, hslots, List.sum_const_nat]

/-- What was taken away is what there is less, of each kind. -/
theorem Addressable.liveOf_without (h : t.Addressable) (h' : t'.Addressable) (has : as.Nodup)
    (hkind : ∀ a, t'.kind? a = if a ∈ as then none else t.kind? a) :
    t.liveOf k = t'.liveOf k + as.countP (t.kind? · = some k) := by
  let gone := as.filterMap fun a => (t.kind? a).map (a, ·)
  have hmem : ∀ a l, (a, l) ∈ gone ↔ a ∈ as ∧ t.kind? a = some l := by
    intro a l
    simp [gone]
  have hgone : gone.Nodup := has.filterMap fun a b p hp hp' => by
    obtain ⟨l, -, rfl⟩ := Option.map_eq_some_iff.1 hp
    obtain ⟨l', -, heq⟩ := Option.map_eq_some_iff.1 hp'
    exact (congrArg Prod.fst heq).symm
  have hperm : t.kinds ~ t'.kinds ++ gone := by
    have hapart : t'.kinds.Disjoint gone := by
      intro p hp hpg
      obtain ⟨a, l⟩ := p
      rw [h'.mem_kinds, hkind, if_pos ((hmem a l).1 hpg).1] at hp
      cases hp
    rw [List.perm_ext_iff_of_nodup h.nodup_kinds (h'.nodup_kinds.append hgone hapart)]
    intro p
    obtain ⟨a, l⟩ := p
    rw [List.mem_append, h.mem_kinds, h'.mem_kinds, hmem, hkind]
    by_cases ha : a ∈ as <;> simp [ha]
  rw [← count_kinds, ← count_kinds, (hperm.map Prod.snd).count_eq k, List.map_append,
    List.count_append, List.count_eq_countP (l := gone.map Prod.snd), List.countP_map,
    List.countP_filterMap]
  refine congrArg _ (List.countP_congr fun a _ => ?_)
  cases t.kind? a <;> simp

end Arena

/-! ## What a store says of itself -/

namespace Store

variable {s : Store} {c : Settings}

/-- What a store says of itself is so: there are as many elements of each kind as are counted,
counting them anew changes nothing, each slot holds an element or is vacant, and an erasure takes
from each count what it erases of that kind, which is never more than was counted. -/
structure FiguresRight (s : Store) : Prop where
  census : ∀ k, (s.statistics.census.of k).toNat = s.arena.liveOf k
  recount : s.recount = s
  slots : s.statistics.census.total.toNat + s.statistics.vacant
    = s.statistics.segments * s.arena.capacity
  erase : ∀ a order s', (Store.erase a).on s = (.ok order, s') → ∀ k,
    (s.census.of k).toNat = (s'.census.of k).toNat + order.countP (s.arena.kind? · = some k)

theorem Sound.toNat_census {made : List Address} (h : s.Sound made) (k : Kind) :
    (s.census.of k).toNat = s.arena.liveOf k := by
  rw [h.census, h.tidy.addressable.toNat_tally]

theorem AtRest.figuresRight {made : List Address} (h : s.AtRest made) : s.FiguresRight where
  census k := h.sound.toNat_census k
  recount := by
    have hcensus : s.recount.census = s.census := s.census_recount.trans h.sound.census.symm
    calc s.recount = { s with census := s.recount.census } := rfl
      _ = s := by rw [hcensus]
  slots := by
    have hkinds := h.sound.toNat_census
    have htotal : s.census.total.toNat = s.arena.elements.length := by
      have hlt := h.sound.tidy.addressable.length_elements_lt
      have hsum := s.arena.length_elements_eq
      rw [← hkinds .node, ← hkinds .link, ← hkinds .connector] at hsum
      rw [Census.total, UInt64.toNat_add, UInt64.toNat_add]
      simp only [Census.of] at hsum
      omega
    exact (congrArg (· + s.arena.vacant) htotal).trans h.sound.tidy.length_elements_add_vacant
  erase a order s' hrun k := by
    cases ha : s.arena.find? a with
    | none =>
      obtain ⟨f, hfail⟩ := erase_dead ha
      rw [hfail] at hrun
      cases hrun
    | some e =>
      obtain ⟨order', s'', hrun', hrest, hless, hnodup, -⟩ := h.erase (Option.isSome_of_eq_some ha)
      rw [hrun'] at hrun
      cases hrun
      rw [h.sound.toNat_census, hrest.sound.toNat_census]
      refine h.sound.tidy.addressable.liveOf_without hrest.sound.tidy.addressable hnodup fun b => ?_
      rw [Arena.kind?_eq_bare?, Arena.kind?_eq_bare?, hless.arena.bare]
      split <;> rfl

/-- The stores that are reached from a new one with the settings `c` without loading a dump.
Operations and walks follow each other in any order, and each may fail. -/
inductive Unloaded (c : Settings) : Store → Prop where
  | fresh : Unloaded c (.ofSettings c)
  | act {s : Store} (k : Action) (h : Unloaded c s) : Unloaded c (k.run.on s).2
  | scanned {s : Store} (n : Scans) (h : Unloaded c s) : Unloaded c (s.noteScans n)

theorem Unloaded.counted (h : s.Unloaded c) : s.Counted ⟨c.metrics, fun _ => 0, 0⟩ := by
  induction h with
  | fresh =>
    have hclear : ∀ a n, (ofSettings c).arena.nature? a = some n → n.Clear := by
      simp [ofSettings, Arena.ofLimits, Arena.nature?, Arena.find?, Arena.slot?]
    have hmetrics : (ofSettings c).metrics = if c.metrics then some {} else none := rfl
    have hopening : (ofSettings c).opening = ⟨c.metrics, fun _ => 0, 0⟩ := by
      rw [opening, hmetrics]
      cases c.metrics <;> rfl
    rw [← hopening]
    refine counted_opening (Arena.regular_ofLimits _ _) hclear rfl fun m hm => ?_
    rw [hmetrics] at hm
    split at hm
    · exact (Option.some.inj hm).symm
    · cases hm
  | act k _ ih => exact k.keeps_counted _ ih
  | scanned n _ ih =>
    exact (ih.count (by simp) (by simp) (by simp) _).count (by simp) (by simp) (by simp) _

theorem Unloaded.runAll (h : s.Unloaded c) (ks : List Action) :
    (Action.runAll ks s).2.Unloaded c := by
  induction ks generalizing s with
  | nil => exact h
  | cons k ks ih => exact ih (h.act k)

end Store

/-- Whatever was reached, its figures are right. When it was reached without loading and metrics are
to be counted, they say of each kind that what was made was erased or is left, and that as many
segments were added as there are. -/
theorem Reached.figures_right {allowed : Settings → Prop} {made : List Address} {s : Store}
    (h : Reached allowed made s) :
    s.FiguresRight ∧ ∀ c, s.Unloaded c → c.metrics = true → ∃ m, s.metrics = some m ∧
      (∀ k, m.created k = m.erased k + s.arena.liveOf k) ∧
      m.segmentsAllocated = s.statistics.segments := by
  refine ⟨h.atRest.figuresRight, fun c hunloaded hc => ?_⟩
  have hcounted := hunloaded.counted
  obtain ⟨m, hm⟩ := Option.isSome_iff_exists.1 (hcounted.counting.trans hc)
  have hbalances := hcounted.metrics m hm
  exact ⟨m, hm, hbalances.elements, hbalances.segments⟩

/-- The sample without its first node and the three connectors that hang on it. -/
def thinnedActions : List Action := sampleActions ++ [.erase ⟨1, 1⟩]

def thinnedStore : Store := (Action.runAll thinnedActions (.ofSettings .small)).2

theorem Reached.figures_right_thinnedStore :
    (∃ made, Reached (· = .small) made thinnedStore) ∧ thinnedStore.Unloaded .small ∧
    thinnedStore.FiguresRight ∧ thinnedStore.statistics = ⟨⟨1, 1, 0⟩, 1, 4094⟩ ∧
    ∃ m, thinnedStore.metrics = some m ∧ m.erased .connector = 3 ∧
      m.created .connector = 3 + thinnedStore.arena.liveOf .connector := by
  have hadmissible : ∀ k ∈ thinnedActions, k.Admissible := by
    simp [thinnedActions, sampleActions, Action.Admissible, Access.inUse_lowest,
      Access.inUse_highest]
  have hreached : Reached (· = .small) _ thinnedStore :=
    (@Reached.fresh (· = .small) _ rfl).runAll hadmissible
  have hunloaded : thinnedStore.Unloaded .small := Store.Unloaded.fresh.runAll thinnedActions
  have herased : thinnedStore.metrics.map (·.erased .connector) = some 3 := by decide +kernel
  obtain ⟨hfigures, hmetrics⟩ := hreached.figures_right
  obtain ⟨m, hm, hcreated, -⟩ := hmetrics .small hunloaded rfl
  rw [hm] at herased
  have hthree : m.erased .connector = 3 := Option.some.inj herased
  exact ⟨⟨_, hreached⟩, hunloaded, hfigures, by decide +kernel, m, hm, hthree,
    hthree ▸ hcreated .connector⟩

end SemanticNet
