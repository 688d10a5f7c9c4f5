import SemanticNet.Proofs.Natures
import SemanticNet.Proofs.Sharing

/-!
# Types over a lifetime

From the time that an element is made until it is erased its ends stay as they are and its type is
narrowed at most, whoever does what in whatever order (`Office.persists_after`). So the type at any
time refines the types before it (`Reached.types_refine`): bits are only added, the kind stays, and
what is settled stays settled.
-/

namespace SemanticNet

/-- What is erased is named in the answer; the other elements stay. -/
def Store.Keeping (s s' : Store) (r : Except Failure Answer) : Prop :=
  ∀ a n, s.arena.nature? a = some n → (∀ as, r = .ok (.erased as) → a ∉ as) →
    ∃ m, s'.arena.nature? a = some m ∧ n.Becomes m

/-- A store at rest is regular. -/
theorem Store.AtRest.regular {s : Store} {made : List Address} (h : s.AtRest made) : s.Regular := by
  have ht := h.sound.tidy
  refine ⟨ht.size_le, ht.maxSegments_le, ht.capacity_pos, ht.capacity_le, fun i g hg => ?_⟩
  refine Segment.regular_of_slots (ht.sound i g hg).size_le ht.capacity_le fun o e ho => ?_
  have hi : i < 65535 := by
    have := (Array.getElem?_eq_some_iff.1 hg).1
    have := ht.size_le
    have := ht.maxSegments_le
    omega
  have hslot := Arena.slot?_of_segment (b := Arena.addressAt i o) hg (Arena.toNat_addressAt hi)
  have hfind := Arena.find?_eq_some_iff.2 (hslot.trans ho)
  exact ElementType.isUnknown_of_kind (h.sound.proper _ e hfind).kind

namespace Action

variable {s : Store} {made : List Address}

/-- An operation takes no element away but what its answer says. -/
theorem keeping (k : Action) (h : s.AtRest made) : s.Keeping (k.run.on s).2 (k.run.on s).1 := by
  intro a n hn hstay
  have hspares : k.Spares → ∃ m, (k.run.on s).2.arena.nature? a = some m ∧ n.Becomes m :=
    fun hk => persists h.regular hk a n hn
  cases k with
  | addNode | addLink | connect | narrow | setAccess | setContent | commit => exact hspares trivial
  | erase x =>
    rw [run, Step.on_map] at hstay ⊢
    cases hx : s.arena.find? x with
    | none =>
      obtain ⟨f, hrun⟩ := Store.erase_dead hx
      rw [hrun]
      exact ⟨n, hn, .refl n⟩
    | some e =>
      obtain ⟨order, s', hrun, -, hless, -⟩ := h.erase (Option.isSome_of_eq_some hx)
      rw [hrun] at hstay ⊢
      have hbare : s'.arena.bare? a = s.arena.bare? a := by
        rw [hless.arena.bare, if_neg (hstay order rfl)]
      exact ⟨n, (Arena.nature?_of_bare hbare).trans hn, .refl n⟩

end Action

namespace Office

variable {o : Office} {e : Deed} {es : List Deed} {a : Address} {n : Nature}

theorem Orderly.keeping (h : o.Orderly) (e : Deed) :
    o.desk.store.Keeping (o.perform e).2.desk.store (o.perform e).1 := by
  obtain ⟨made, hrest⟩ := h.rest
  rcases o.store_cases e with ⟨hsame, -⟩ | ⟨k, -, hrun⟩
  · intro a n hn _
    rw [hsame]
    exact ⟨n, hn, .refl n⟩
  · have hkeeping := k.keeping hrest
    rwa [hrun] at hkeeping

/-- Whatever deeds follow each other, an element that none of them erases stays, with its ends, and
with its type as it was or narrowed. -/
theorem Orderly.persists_after (h : o.Orderly) (hes : ∀ e ∈ es, e.Admissible)
    (hn : o.desk.store.arena.nature? a = some n)
    (hstay : ∀ as, .ok (.erased as) ∈ o.answers es → a ∉ as) :
    ∃ m, (o.after es).desk.store.arena.nature? a = some m ∧ n.Becomes m := by
  induction es generalizing o n with
  | nil => exact ⟨n, hn, .refl n⟩
  | cons e es ih =>
    obtain ⟨m, hm, hbecomes⟩ := h.keeping e a n hn fun as has =>
      hstay as (has ▸ List.mem_cons_self)
    obtain ⟨l, hl, hbecomes'⟩ := ih (h.perform (hes e List.mem_cons_self))
      (fun e' he' => hes e' (List.mem_cons_of_mem e he')) hm
      fun as has => hstay as (List.mem_cons_of_mem _ has)
    exact ⟨l, hl, hbecomes.trans hbecomes'⟩

end Office

/-- Whatever was reached before any transaction was begun, and whatever sessions and others do then:
when an element is live at one time and not erased until another, then it is live then, its ends are
the same, and its type refines the one it had. -/
theorem Reached.types_refine {allowed : Settings → Prop} {made : List Address} {d : Desk}
    {es es' : List Deed} {a : Address} {e : Element} (h : Reached allowed made d.store)
    (hes : ∀ l ∈ es ++ es', l.Admissible)
    (he : ((Office.ofDesk d).after es).desk.store.arena.find? a = some e)
    (hstay : ∀ as, .ok (.erased as) ∈ ((Office.ofDesk d).after es).answers es' → a ∉ as) :
    ∃ e', ((Office.ofDesk d).after (es ++ es')).desk.store.arena.find? a = some e' ∧
      e.type.Refines e'.type ∧ e'.ends? = e.ends? := by
  have ho := (Office.orderly_ofDesk h).after fun l hl => hes l (List.mem_append_left es' hl)
  obtain ⟨m, hm, hbecomes⟩ := ho.persists_after
    (fun l hl => hes l (List.mem_append_right es hl)) (Arena.nature?_of_find? he) hstay
  obtain ⟨e', he', rfl⟩ := Arena.nature?_eq_some_iff.1 hm
  obtain ⟨made', hrest⟩ := ho.rest
  rw [Office.after_append]
  exact ⟨e', he', hbecomes.type.refines (hrest.sound.proper a e he).kind, hbecomes.ends⟩

/-- A session with all rights begins a transaction and stages a mark for the first node of the
sample. -/
def markingDeeds : List Deed :=
  [.begin ⟨.highest⟩, .draft 0 (.narrow ⟨1, 1⟩ .role)]

/-- The node is given its mark outside of the transaction, the other node is erased, the commit
finds the mark there, and another mark is refused. -/
def meetingDeeds : List Deed :=
  [.act (.narrow ⟨1, 1⟩ .role), .direct ⟨.highest⟩ (.erase ⟨1, 2⟩), .commit 0,
    .act (.narrow ⟨1, 1⟩ .struct)]

theorem Reached.types_refine_sampleDesk :
    (Reached (· = .small) sampleMade sampleDesk.store ∧
      ∀ l ∈ markingDeeds ++ meetingDeeds, l.Admissible) ∧
    ((Office.ofDesk sampleDesk).after markingDeeds).answers meetingDeeds
      = [.ok .done, .ok (.erased [⟨1, 6⟩, ⟨1, 4⟩, ⟨1, 2⟩]), .ok .done,
        .error (.invalidType .notNarrower)] ∧
    ∃ e e', ((Office.ofDesk sampleDesk).after markingDeeds).desk.store.arena.find? ⟨1, 1⟩ = some e ∧
      ((Office.ofDesk sampleDesk).after (markingDeeds ++ meetingDeeds)).desk.store.arena.find?
        ⟨1, 1⟩ = some e' ∧
      e.type = .constNode ∧ e'.type = .constNode ||| .role ∧ e.type.Refines e'.type := by
  have hadmissible : ∀ l ∈ markingDeeds ++ meetingDeeds, l.Admissible := by
    simp [markingDeeds, meetingDeeds, Deed.Admissible, Draft.Call.Admissible, Action.Admissible,
      Access.inUse_highest]
  have hanswers : ((Office.ofDesk sampleDesk).after markingDeeds).answers meetingDeeds
      = [.ok .done, .ok (.erased [⟨1, 6⟩, ⟨1, 4⟩, ⟨1, 2⟩]), .ok .done,
        .error (.invalidType .notNarrower)] := by
    decide +kernel
  have hbefore : (((Office.ofDesk sampleDesk).after markingDeeds).desk.store.arena.find?
      ⟨1, 1⟩).map (·.type) = some .constNode := by
    decide +kernel
  have hafter : (((Office.ofDesk sampleDesk).after
      (markingDeeds ++ meetingDeeds)).desk.store.arena.find? ⟨1, 1⟩).map (·.type)
        = some (.constNode ||| .role) := by
    decide +kernel
  obtain ⟨e, he, htype⟩ := Option.map_eq_some_iff.1 hbefore
  obtain ⟨e', he', hrefines, -⟩ := reached_sampleDesk.types_refine hadmissible he fun as has => by
    rw [hanswers] at has
    obtain rfl : as = [⟨1, 6⟩, ⟨1, 4⟩, ⟨1, 2⟩] := by simpa using has
    decide
  rw [he'] at hafter
  exact ⟨⟨reached_sampleDesk, hadmissible⟩, hanswers, e, e', he, he', htype,
    Option.some.inj hafter, hrefines⟩

end SemanticNet
