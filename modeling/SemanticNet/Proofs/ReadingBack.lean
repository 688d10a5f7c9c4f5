import SemanticNet.Proofs.Disclosure
import SemanticNet.Proofs.Starting

/-!
# Names that are read back

When a session has given an element a name, it finds the naming under that name, and the name for
that element, whatever other names the element has (`Reached.name_reads_back`): the arc to the new
link is the newest one that goes to a link, and walks come to the newest connectors first. Under
other names it finds what it found before.
-/

namespace SemanticNet

variable {allowed : Settings → Prop} {made : List Address} {s s' : Store} {c : Session}
  {relation a : Address} {bytes : Bytes} {name : String} {n : Naming}

/-! ## The newest name of an element -/

namespace Naming.Given

/-- Of all connectors that go from an element to a link with a name, the new arc is the first one
that a walk comes to. -/
theorem exists_walk_eq (h : Given c bytes s s' n)
    (hs' : s'.AtRest (n.mark :: n.arc :: n.link :: made)) (hshows : s'.Shows c.levels n) :
    ∃ τs, s'.walk (namesPattern n.relation n.element).main c.levels
      = ⟨n.element, n.arc, n.link⟩ :: τs := by
  simp only [Store.Shows, toList, List.forall_mem_cons] at hshows
  obtain ⟨helement, harc, hlink, -⟩ := hshows
  have hwalk := hs'.walksRing (p := (namesPattern n.relation n.element).main) rfl c.levels
  obtain ⟨e, he, hfits, hjoins⟩ := h.names.arc
  obtain ⟨l, hl, hbare⟩ := Arena.bare?_eq_some.1 h.link
  have htype : l.type = .const ||| .link := congrArg (·.type) hbare
  have hmem : (⟨n.element, n.arc, n.link⟩ : Triple)
      ∈ s'.walk (namesPattern n.relation n.element).main c.levels := by
    refine (hwalk.mem_iff _).2 ⟨⟨e, he, hjoins⟩, Store.fits_fixed.2 ⟨rfl, helement⟩,
      Store.fits_any.2 ⟨⟨e, he, hfits⟩, harc⟩, Store.fits_any.2 ⟨⟨l, hl, ?_⟩, hlink⟩⟩
    rw [htype]
    decide
  cases hfirst : s'.walk (namesPattern n.relation n.element).main c.levels with
  | nil =>
    rw [hfirst] at hmem
    cases hmem
  | cons τ τs =>
    rw [hfirst] at hmem hwalk
    rcases List.mem_cons.1 hmem with rfl | hlater
    · exact ⟨τs, rfl⟩
    · -- only the mark is newer than the arc, and it is no common arc
      exfalso
      have hnewer : Arena.Newer _ τ.connector n.arc := List.rel_of_pairwise_cons hwalk.newest hlater
      have hmark : τ.connector = n.mark := by
        by_contra hne
        rw [Arena.Newer, List.idxOf_cons_ne _ (Ne.symm hne)] at hnewer
        by_cases harc : n.arc = n.mark
        · rw [harc, List.idxOf_cons_self] at hnewer
          omega
        · rw [List.idxOf_cons_ne _ (Ne.symm harc), List.idxOf_cons_self] at hnewer
          omega
      obtain ⟨⟨e', he', hcommon⟩, -⟩ :=
        Store.fits_any.1 ((hwalk.mem_iff τ).1 List.mem_cons_self).connector
      obtain ⟨m, hm, hbare'⟩ := Arena.bare?_eq_some.1 h.mark
      obtain rfl : e' = m := Option.some.inj (he'.symm.trans (hmark ▸ hm))
      have htype' : e'.type = .constPermPosArc := congrArg (·.type) hbare'
      rw [htype'] at hcommon
      exact absurd hcommon (by decide)

/-- The new name is the one that the session finds for the element. -/
theorem nameOf_eq (h : Given c (Utf8.encode name) s s' n)
    (hs' : s'.AtRest (n.mark :: n.arc :: n.link :: made)) (hshows : s'.Shows c.levels n)
    (hname : isValid name = true) : s'.nameOf c n.relation n.element = .ok (some name) := by
  obtain ⟨τs, hwalk⟩ := h.exists_walk_eq hs' hshows
  have hmarks : (⟨n.relation, n.mark, n.arc⟩ : Triple)
      ∈ s'.walk ((namesPattern n.relation n.element).marksOf n.arc) c.levels := by
    simp only [Store.Shows, toList, List.forall_mem_cons] at hshows
    obtain ⟨-, harc, -, hmark, hrelation, -⟩ := hshows
    exact hs'.mem_walk_to.2
      ⟨h.names.mark, rfl, Store.fits_fixed.2 ⟨rfl, hrelation⟩, hmark, harc⟩
  have htext : c.textOf s' n.link = .ok (some name) := by
    have hread : c.mayRead s' n.link = true := Store.mayRead_of_bare h.link rfl
    have hcontent : c.contentOf s' n.link = .ok (some (Utf8.encode name)) :=
      Session.contentOf_eq_ok_iff.2 ⟨hread, (Session.contentOf_eq_some_iff hs').2 h.content⟩
    rw [Session.textOf, hcontent]
    exact congrArg (Except.ok ∘ some) (decodeLossy_encode_of_isValid hname)
  rw [Store.nameOf, Store.joined, hwalk, Quintuples.pairs, List.flatMap_cons]
  cases hκ : s'.walk ((namesPattern n.relation n.element).marksOf n.arc) c.levels with
  | nil =>
    rw [hκ] at hmarks
    cases hmarks
  | cons κ κs => exact htext

end Naming.Given

/-! ## Reading back -/

/-- A name that is given is found at once: under the name there are the naming and its element, and
the element has that name, whatever it is and whatever other names it has. Under each other name
there is what there was. -/
theorem Reached.name_reads_back (h : Reached allowed made s) (hc : c.levels.InUse)
    (hrelation : c.mayRead s relation = true) (ha : c.mayRead s a = true)
    (hrun : (Naming.assign c relation a name).on s = (.ok n, s')) :
    n.element = a ∧ n.relation = relation ∧
    ((Naming.find? c relation name).on s').1 = .ok (some n) ∧
    ((Naming.elementNamed? c relation name).on s').1 = .ok (some a) ∧
    ((Naming.nameOf? c relation a).on s').1 = .ok (some name) ∧
    ∀ other, other ≠ name →
      ((Naming.find? c relation other).on s').1 = ((Naming.find? c relation other).on s).1 := by
  rcases h.assign_cases hc relation a name with
    ⟨hvalid, hnone, m, t, hdone, rfl, rfl, h', hgiven⟩ | ⟨f, t, made', hfail, -⟩
  swap
  · cases (Prod.mk.inj (hrun.symm.trans hfail)).1
  obtain ⟨hm, rfl⟩ := Prod.mk.inj (hrun.symm.trans hdone)
  obtain rfl : n = m := Except.ok.inj hm
  obtain ⟨e, he⟩ := Option.isSome_iff_exists.1 (Store.isSome_of_mayRead hrelation)
  have hr := Arena.ne_empty_of_find? he
  have hnamed := hgiven.named?_eq_some h h' ha hrelation hnone
  obtain ⟨k, hfind⟩ := h'.atRest.on_find? (c := c) hr hvalid
  rw [hnamed] at hfind
  refine ⟨rfl, rfl, congrArg Prod.fst hfind, ?_, ?_, fun other hother => ?_⟩
  · rw [Naming.elementNamed?, Step.on_bind, hfind]
    rfl
  · obtain ⟨j, hnameOf⟩ := h'.atRest.on_nameOf? (c := c) hr n.element
    rw [hnameOf]
    exact hgiven.nameOf_eq h'.atRest (hgiven.shows ha hrelation) hvalid
  · cases hvalid' : Naming.isValid other with
    | false => rw [Store.on_find?_invalid hvalid', Store.on_find?_invalid hvalid']
    | true =>
      obtain ⟨i, hbefore⟩ := h.atRest.on_find? (c := c) hr hvalid'
      obtain ⟨j, hafter⟩ := h'.atRest.on_find? (c := c) hr hvalid'
      rw [hbefore, hafter, hgiven.named?_other h h' (hother ∘ (Utf8.encode_injective ·))]

/-- The relation node of a memory that is started empty names itself. Here it gets another name. -/
def secondNaming : Naming := ⟨⟨1, 1⟩, ⟨1, 6⟩, ⟨1, 5⟩, ⟨1, 7⟩, ⟨1, 1⟩⟩

/-- The memory with the second name. -/
def renamedStore : Store :=
  ((Naming.assign ⟨.lowest⟩ ⟨1, 1⟩ ⟨1, 1⟩ "x").on startedMemory.store).2

theorem Reached.name_reads_back_startedMemory :
    startedMemory.relation = ⟨1, 1⟩ ∧
    (Naming.assign ⟨.lowest⟩ ⟨1, 1⟩ ⟨1, 1⟩ "x").on startedMemory.store
      = (.ok secondNaming, renamedStore) ∧
    ((Naming.nameOf? ⟨.lowest⟩ ⟨1, 1⟩ ⟨1, 1⟩).on startedMemory.store).1
      = .ok (some Naming.relationName) ∧
    ((Naming.find? ⟨.lowest⟩ ⟨1, 1⟩ "x").on renamedStore).1 = .ok (some secondNaming) ∧
    ((Naming.elementNamed? ⟨.lowest⟩ ⟨1, 1⟩ "x").on renamedStore).1 = .ok (some ⟨1, 1⟩) ∧
    ((Naming.nameOf? ⟨.lowest⟩ ⟨1, 1⟩ ⟨1, 1⟩).on renamedStore).1 = .ok (some "x") ∧
    ((Naming.find? ⟨.lowest⟩ ⟨1, 1⟩ Naming.relationName).on renamedStore).1
      = ((Naming.find? ⟨.lowest⟩ ⟨1, 1⟩ Naming.relationName).on startedMemory.store).1 := by
  obtain ⟨made, h⟩ := started_startedMemory.1.reached
  have hread : Session.mayRead ⟨.lowest⟩ startedMemory.store ⟨1, 1⟩ = true := by decide +kernel
  have hnaming : ((Naming.assign ⟨.lowest⟩ ⟨1, 1⟩ ⟨1, 1⟩ "x").on startedMemory.store).1
      = .ok secondNaming := by
    decide +kernel
  have hassign : (Naming.assign ⟨.lowest⟩ ⟨1, 1⟩ ⟨1, 1⟩ "x").on startedMemory.store
      = (.ok secondNaming, renamedStore) := by
    rw [← hnaming, renamedStore]
  obtain ⟨-, -, hfind, helement, hname, hothers⟩ :=
    h.name_reads_back Access.inUse_lowest hread hread hassign
  exact ⟨by decide +kernel, hassign, by decide +kernel, hfind, helement, hname,
    hothers Naming.relationName (by decide)⟩

end SemanticNet
