import SemanticNet.Proofs.Runs

/-!
# No number runs out

Rings count their members in 32 bits, segments and slots are numbered in 16, and what is counted
down is a natural number. An operation is built from four steps that calculate: attaching,
detaching, allocating and freeing (`Machinery`). When each of these first checks that its numbers
fit and fails otherwise (`Machinery.checked`), every operation on a store that was reached does what
it does without the checks, so no check ever fails (`Reached.within_limits`). And what a dump counts
fits the fields that it is written to (`Store.Measured`).
-/

namespace SemanticNet

/-- A step that is taken only if the state passes a check. -/
def Step.checked {σ α : Type} (f : Failure) (check : σ → Bool) (x : Step σ α) : Step σ α := do
  Step.ask fun s => if check s then .ok () else .error f
  x

theorem Step.on_checked {σ α : Type} {f : Failure} {check : σ → Bool} {x : Step σ α} {s : σ}
    (h : check s = true) : (Step.checked f check x).on s = x.on s := by
  simp only [Step.checked, Step.on_bind, Step.on_ask, h, if_true]

/-- An operation on a store over a machinery. Those that make and erase nothing do not calculate. -/
def Machinery.run (m : Machinery) : Action → Step Store Answer
  | .addNode type access => .made <$> m.addNode type access
  | .addLink type access => .made <$> m.addLink type access
  | .connect type source target access => .made <$> m.connect type source target access
  | .erase a => .erased <$> m.erase a
  | k => k.run

/-- Over the plain machinery the operations are those of the store. -/
theorem Machinery.run_plain (k : Action) : plain.run k = k.run := by
  cases k <;> rfl

/-! ## Checks -/

namespace Arena

/-- A ring of `x` can count one more member. -/
def canCountUp (t : Arena) (x : Address) (d : Direction) : Bool :=
  (t.find? x).all fun e => (e.ring d).count.toNat + 1 < 2 ^ 32

/-- A ring of `x` counts a member that can be taken off. -/
def canCountDown (t : Arena) (x : Address) (d : Direction) : Bool :=
  (t.find? x).all fun e => (e.ring d).count ≠ 0

/-- The numbers of a new slot and of a new segment fit, and so does the number of live slots. -/
def canAllocate (t : Arena) : Bool :=
  match t.vacancy? with
  | .ok (some (i, .reused _ _)) => t.segments[i]?.all fun g => g.live + 1 < 2 ^ 16
  | .ok (some (i, .fresh _)) => t.segments[i]?.all fun g =>
    g.slots.size + 1 < 2 ^ 16 && g.live + 1 < 2 ^ 16
  | .ok none => t.maxSegments ≤ t.segments.size || t.segments.size + 1 < 2 ^ 16
  | .error _ => true

/-- The segment of `a` counts a live slot that can be taken off. -/
def canFree (t : Arena) (a : Address) : Bool :=
  t.segments[a.segment.toNat - 1]?.all fun g => g.live ≠ 0

variable {t : Arena} {a c x : Address} {d : Direction} {e : Element} {cs : List Address}

/-- A ring that does not have the element `c` in it can take it in. -/
theorem IsRing.canCountUp (h : t.IsRing x d cs) (hn : c ∉ cs) (hc : c ≠ .empty) :
    t.canCountUp x d = true := by
  obtain ⟨r, hr, -, hcount⟩ := h.head
  obtain ⟨e, he, rfl⟩ := Option.map_eq_some_iff.1 hr
  have hlt : (c :: cs).length < 2 ^ 32 := by
    refine length_lt_of_nodup (List.nodup_cons.2 ⟨hn, h.nodup⟩) fun b hb => ?_
    rcases List.mem_cons.1 hb with rfl | hb
    · exact hc
    · exact h.ne_empty hb
  rw [Arena.canCountUp, he, Option.all_some, hcount, decide_eq_true_iff]
  exact hlt

/-- A ring with a member can give one up. -/
theorem IsRing.canCountDown (h : t.IsRing x d cs) (hc : c ∈ cs) : t.canCountDown x d = true := by
  obtain ⟨r, hr, -, hcount⟩ := h.head
  obtain ⟨e, he, rfl⟩ := Option.map_eq_some_iff.1 hr
  have hpos := List.length_pos_of_mem hc
  rw [Arena.canCountDown, he, Option.all_some, decide_eq_true_iff]
  intro hzero
  rw [hzero] at hcount
  rw [← hcount] at hpos
  exact Nat.lt_irrefl 0 hpos

theorem Tidy.canAllocate (h : t.Tidy) : t.canAllocate = true := by
  have hsize := h.size_le
  have hmax := h.maxSegments_le
  have hcap := h.capacity_le
  rcases h.vacancy?_cases with ⟨i, g, v, -, hg, hv, hvacancy⟩ | ⟨hvacancy, -⟩
  · -- the segment is sound with the new element in it, too
    have hsound := (h.sound i g hg).occupy hcap hv default
    have hengaged := hsound.size_le
    have hlive : (g.occupy default v).live ≤ (g.occupy default v).slots.size :=
      hsound.live_eq ▸ Array.countP_le_size
    cases v with
    | reused offset next =>
      have hnext : g.live + 1 ≤ (g.occupy default (.reused offset next)).slots.size := hlive
      simp only [Arena.canAllocate, hvacancy, hg, Option.all_some, decide_eq_true_iff]
      omega
    | fresh offset =>
      have hpush : (g.occupy default (.fresh offset)).slots.size = g.slots.size + 1 :=
        Array.size_push _
      have hnext : g.live + 1 ≤ (g.occupy default (.fresh offset)).slots.size := hlive
      simp only [Arena.canAllocate, hvacancy, hg, Option.all_some, Bool.and_eq_true,
        decide_eq_true_iff]
      omega
  · simp only [Arena.canAllocate, hvacancy, Bool.or_eq_true, decide_eq_true_iff]
    omega

theorem Tidy.canFree (h : t.Tidy) (he : t.find? a = some e) : t.canFree a = true := by
  have hslot := find?_eq_some_iff.1 he
  rw [slot?] at hslot
  split at hslot
  · cases hslot
  obtain ⟨g, hg, ho⟩ := Option.bind_eq_some_iff.1 hslot
  have hmem := Array.mem_of_getElem? (Segment.slot?_eq_some_iff.1 ho).2
  have hpos : 0 < g.live := by
    rw [(h.sound _ g hg).live_eq]
    exact Array.countP_pos_iff.2 ⟨.live e, hmem, rfl⟩
  rw [Arena.canFree, hg, Option.all_some, decide_eq_true_iff]
  exact Nat.ne_of_gt hpos

end Arena

/-! ## The operations with checks -/

namespace Machinery

/-- The machinery with checks, each of which ends in `f` when a number does not fit. -/
def checked (f : Failure) : Machinery where
  attach c x d := Step.checked f (·.canCountUp x d) (Arena.attach c x d)
  detach c x d := Step.checked f (·.canCountDown x d) (Arena.detach c x d)
  allocate e := Step.checked f (·.canAllocate) (Arena.allocate e)
  free a := Step.checked f (·.canFree a) (Arena.free a)

variable {f : Failure} {t : Arena} {s : Store} {a c : Address} {e : Element} {made : List Address}
  {as : List Address} {ps : List (Address × Direction)}

theorem on_attach_checked {x : Address} {d : Direction} {cs : List Address} (h : t.IsRing x d cs)
    (hn : c ∉ cs) (hc : c ≠ .empty) :
    ((checked f).attach c x d).on t = (Arena.attach c x d).on t := by
  show (Step.checked f (fun t => t.canCountUp x d) (Arena.attach c x d)).on t = _
  exact Step.on_checked (h.canCountUp hn hc)

theorem on_detach_checked {x : Address} {d : Direction} {cs : List Address} (h : t.IsRing x d cs)
    (hc : c ∈ cs) : ((checked f).detach c x d).on t = (Arena.detach c x d).on t := by
  show (Step.checked f (fun t => t.canCountDown x d) (Arena.detach c x d)).on t = _
  exact Step.on_checked (h.canCountDown hc)

theorem on_attachAll_checked (hps : ps.Nodup) (hlinks : ∀ p ∈ ps, (t.linksOf p.1 p.2 c).isSome)
    (hrings : ∀ p ∈ ps, ∃ cs, t.IsRing p.1 p.2 cs ∧ c ∉ cs) (hc : c ≠ .empty) :
    ((checked f).attachAll c ps).on t = (Store.attachAll c ps).on t := by
  induction ps generalizing t with
  | nil => rfl
  | cons p ps ih =>
    obtain ⟨y, d⟩ := p
    obtain ⟨hp, hps⟩ := List.nodup_cons.1 hps
    obtain ⟨cs, hcs, hn⟩ := hrings (y, d) List.mem_cons_self
    obtain ⟨t', hrun, -, hsame⟩ := Arena.attach_spec hcs (hlinks _ List.mem_cons_self) hn
    have hother : ∀ q ∈ ps, ¬(q.1 = y ∧ q.2 = d) := by
      rintro ⟨x, d⟩ hq ⟨rfl, rfl⟩
      exact hp hq
    refine Step.on_bind_congr (on_attach_checked hcs hn hc) fun _ t₁ hrun₁ => ?_
    obtain rfl : t' = t₁ := congrArg Prod.snd (hrun.symm.trans hrun₁)
    refine ih hps (fun q hq => ?_) fun q hq => ?_
    · rw [hsame.links _ _ (hother q hq)]
      exact hlinks q (List.mem_cons_of_mem _ hq)
    · obtain ⟨cs, hcs, hn⟩ := hrings q (List.mem_cons_of_mem _ hq)
      exact ⟨cs, hcs.of_sameBut hsame (hother q hq), hn⟩

theorem on_detachAll_checked (hps : ps.Nodup)
    (hrings : ∀ p ∈ ps, ∃ cs, t.IsRing p.1 p.2 cs ∧ c ∈ cs) :
    ((checked f).detachAll c ps).on t = (Arena.detachAll c ps).on t := by
  induction ps generalizing t with
  | nil => rfl
  | cons p ps ih =>
    obtain ⟨y, d⟩ := p
    obtain ⟨hp, hps⟩ := List.nodup_cons.1 hps
    obtain ⟨cs, hcs, hmem⟩ := hrings (y, d) List.mem_cons_self
    obtain ⟨t', hrun, -, hsame⟩ := Arena.detach_spec hcs hmem
    have hother : ∀ q ∈ ps, ¬(q.1 = y ∧ q.2 = d) := by
      rintro ⟨x, d⟩ hq ⟨rfl, rfl⟩
      exact hp hq
    refine Step.on_bind_congr (on_detach_checked hcs hmem) fun _ t₁ hrun₁ => ?_
    obtain rfl : t' = t₁ := congrArg Prod.snd (hrun.symm.trans hrun₁)
    refine ih hps fun q hq => ?_
    obtain ⟨cs, hcs, hmem⟩ := hrings q (List.mem_cons_of_mem _ hq)
    exact ⟨cs, hcs.of_sameBut hsame (hother q hq), hmem⟩

theorem on_insert_checked (h : s.Sound made) (e : Element) :
    ((checked f).insert e).on s = (Store.insert e).on s := by
  have hallocate : ((checked f).allocate e).on s.arena = (Arena.allocate e).on s.arena :=
    Step.on_checked h.tidy.canAllocate
  have harena : (Store.onArena ((checked f).allocate e)).on s
      = (Store.onArena (Arena.allocate e)).on s := by
    rw [Store.on_onArena, Store.on_onArena, hallocate]
  show (checked f).insert e s = plain.insert e s
  rw [insert, insert, show Store.onArena ((checked f).allocate e) s = _ from harena]
  rfl

theorem on_make_checked (h : s.Sound made)
    (hends : ∀ p ∈ e.places, (s.arena.find? p.1).isSome) :
    ((checked f).make e).on s = (Store.make e).on s := by
  refine Step.on_bind_congr (on_insert_checked h e) fun c s₁ hrun => ?_
  have hstored : Arena.Stored s.arena s₁.arena c e := by
    rcases h.insert e with ⟨c', s', hrun', -, hstored, -⟩ | ⟨s', hrun', -⟩
    · cases hrun'.symm.trans hrun
      exact hstored
    · cases hrun'.symm.trans hrun
  have hfind : s₁.arena.find? c = some e := by rw [hstored.find?, if_pos rfl]
  refine Step.on_bind_congr ?_ fun _ _ _ => rfl
  rw [Store.on_onArena, Store.on_onArena, on_attachAll_checked e.nodup_places (fun p hp => ?_)
    (fun p hp => ?_) (Arena.ne_empty_of_find? hfind)]
  · rw [Arena.linksOf, hfind]
    exact Element.link?_isSome_iff.2 hp
  · obtain ⟨cs, hcs, -⟩ := h.wired.ring p.1 p.2 (hends p hp)
    exact ⟨cs, hcs.stored hstored, fun hc => hcs.ne_of_fresh hstored.fresh c hc rfl⟩

theorem on_connect_checked (h : s.Sound made) (type : ElementType) (source target : Address)
    (access : Access) : ((checked f).connect type source target access).on s
      = (Store.connect type source target access).on s := by
  -- up to the making itself nothing is calculated
  rw [Store.connect, connect, connect]
  dsimp only
  split
  case isFalse => simp only [Step.on_bind, Step.on_throw]
  split
  case isFalse => simp only [Step.on_bind, Step.on_throw]
  split
  case isTrue => simp only [Step.on_bind, Step.on_throw]
  refine Step.on_bind_congr rfl fun _ s₁ hrun₁ => ?_
  obtain ⟨hsource, rfl⟩ := Prod.mk.inj hrun₁
  refine Step.on_bind_congr rfl fun _ s₂ hrun₂ => ?_
  obtain ⟨htarget, rfl⟩ := Prod.mk.inj hrun₂
  refine on_make_checked h fun p hp => ?_
  obtain ⟨x, d⟩ := p
  rcases (Element.mem_places_iff rfl).1 ⟨d, hp⟩ with rfl | rfl
  · obtain ⟨e, he, -⟩ := Store.requireStaying_ok hsource
    exact Option.isSome_of_eq_some he
  · obtain ⟨e, he, -⟩ := Store.requireStaying_ok htarget
    exact Option.isSome_of_eq_some he

theorem on_release_checked (h : s.Sound made) (he : s.arena.find? a = some e) :
    ((checked f).release a).on s = (Store.release a).on s := by
  obtain ⟨hplaced, t, e', hrun, htidy, he', -⟩ := h.wired.detachAll h.tidy he
  have hdetach : ((checked f).detachAll a e.places).on s.arena = (.ok (), t) :=
    (on_detachAll_checked e.nodup_places hplaced).trans hrun
  have hfree : ((checked f).free a).on t = (Arena.free a).on t := by
    show (Step.checked f (fun t => t.canFree a) (Arena.free a)).on t = _
    exact Step.on_checked (htidy.canFree he')
  have hcontents : (Store.dropContent a e.type { s with arena := t }).arena = t := by
    rw [Store.dropContent]
    split <;> rfl
  simp only [release, Step.on_bind, Step.on_ask, Arena.fetch, he]
  split
  · rfl
  · simp only [Step.on_bind, Store.on_onArena, hdetach, hrun, Step.on_change, hcontents, hfree]

/-- A pass frees one element after the other, each from a sound store. -/
theorem on_releasePass_checked (h : s.Sound made) (hd : as.Nodup)
    (hlive : ∀ a ∈ as, (s.arena.find? a).isSome) :
    ((checked f).releasePass as).on s = (Store.releasePass as).on s := by
  induction as generalizing s with
  | nil => rfl
  | cons a as ih =>
    obtain ⟨ha, hd⟩ := List.nodup_cons.1 hd
    obtain ⟨e, he⟩ := Option.isSome_iff_exists.1 (hlive a List.mem_cons_self)
    obtain ⟨freed, s₁, hrun, hsound₁, hlive₁⟩ : ∃ freed s₁, (Store.release a).on s = (.ok freed, s₁)
        ∧ s₁.Sound made ∧ ∀ b ∈ as, (s₁.arena.find? b).isSome := by
      by_cases hc : ∃ c, s.arena.Touches c a
      · obtain ⟨c, hc⟩ := hc
        exact ⟨false, s, h.release_waits he hc, h, fun b hb => hlive b (List.mem_cons_of_mem a hb)⟩
      · obtain ⟨s₁, hrun, hsound₁, hless, -⟩ := h.release he fun c hca => hc ⟨c, hca⟩
        refine ⟨true, s₁, hrun, hsound₁, fun b hb => hless.arena.isSome_find?.2
          ⟨fun hba => ?_, hlive b (List.mem_cons_of_mem a hb)⟩⟩
        obtain rfl := List.mem_singleton.1 hba
        exact ha hb
    simp only [releasePass, Step.on_bind, on_release_checked h he, hrun,
      ih hsound₁ hd hlive₁]

theorem on_releaseAll_checked (h : s.Sound made) (hd : as.Nodup)
    (hlive : ∀ a ∈ as, (s.arena.find? a).isSome) (passes : Nat) :
    ((checked f).releaseAll passes as).on s = (Store.releaseAll passes as).on s := by
  induction passes generalizing s as with
  | zero => cases as <;> rfl
  | succ passes ih =>
    cases as with
    | nil => rfl
    | cons a as =>
      obtain ⟨ws, s₁, hrun, hpassed⟩ := h.releasePass hd hlive
      have hlive₁ : ∀ b ∈ ws, (s₁.arena.find? b).isSome := fun b hb =>
        hpassed.less.arena.isSome_find?.2
          ⟨by simp [hb], hlive b (hpassed.sublist.subset hb)⟩
      simp only [releaseAll, Step.on_bind, on_releasePass_checked h hd hlive, hrun,
        ih hpassed.sound (hpassed.sublist.nodup hd) hlive₁]

theorem on_erase_checked (h : s.AtRest made) (a : Address) :
    ((checked f).erase a).on s = (Store.erase a).on s := by
  cases he : s.arena.find? a with
  | none => simp only [erase, Step.on_bind, Step.on_ask, Arena.fetch, he]
  | some e =>
    have hx : (s.arena.find? a).isSome := Option.isSome_of_eq_some he
    obtain ⟨order, hs⟩ := Arena.sweep_spec h.sound.tidy h.sound.wired h.calm hx
    have htidy : (s.arena.sweep a).arena.Tidy :=
      ((Arena.parallel_of_update fun t a f ht => ht.update a f).sweep ⟨rfl, h.sound.tidy⟩).2.2.2
    have hpending := Store.pending_swept hs hx
    have hall : ∀ passes, ((checked f).releaseAll passes order).on
        { s with arena := (s.arena.sweep a).arena } = (Store.releaseAll passes order).on
          { s with arena := (s.arena.sweep a).arena } :=
      on_releaseAll_checked (h.swept htidy hs) hpending.nodup hpending.live
    simp only [erase, Step.on_bind, Step.on_ask, Arena.fetch, he, h.calm a e he,
      Bool.false_eq_true, if_false, Store.on_onArena, Step.on_modifyGet, Step.on_tryCatch,
      releaseSwept, hs.order_eq, hall]

/-- Whatever the checks would end in, they never do. -/
theorem on_run_checked (h : s.AtRest made) (k : Action) :
    ((checked f).run k).on s = (plain.run k).on s := by
  have hmap : ∀ {α : Type} {g : α → Answer} {x y : Step Store α}, x.on s = y.on s →
      (g <$> x).on s = (g <$> y).on s := fun hxy => by rw [Step.on_map, Step.on_map, hxy]
  cases k with
  | addNode type access =>
    refine hmap ?_
    rw [addNode, addNode]
    split
    · rfl
    · exact on_insert_checked h.sound _
  | addLink type access =>
    refine hmap ?_
    rw [addLink, addLink]
    split
    · rfl
    · exact on_insert_checked h.sound _
  | connect type source target access => exact hmap (on_connect_checked h.sound ..)
  | erase a => exact hmap (on_erase_checked h a)
  | narrow _ _ | setAccess _ _ | setContent _ _ | commit _ => rfl

end Machinery

/-! ## What is counted in a dump -/

/-- Segments, slots and contents have numbers that fit the fields of a dump, and no segment has more
live slots than it has slots at all. -/
structure Store.Measured (s : Store) : Prop where
  segments : s.arena.segments.size < 2 ^ 16
  capacity : s.arena.capacity < 2 ^ 16
  engaged : ∀ g ∈ s.arena.segments, g.slots.size ≤ s.arena.capacity
  live : ∀ g ∈ s.arena.segments, g.live ≤ s.arena.capacity
  chain : ∀ g ∈ s.arena.segments, (g.chain s.arena.capacity).length < 2 ^ 32
  elements : ∀ g ∈ s.arena.segments, g.elements.length < 2 ^ 32
  contents : s.contents.size < 2 ^ 32

theorem Store.Sound.measured {s : Store} {made : List Address} (h : s.Sound made) : s.Measured := by
  have hsize := h.tidy.size_le
  have hmax := h.tidy.maxSegments_le
  have hcap := h.tidy.capacity_le
  have hsound : ∀ g ∈ s.arena.segments, g.Sound s.arena.capacity := fun g hg => by
    obtain ⟨i, hi⟩ := Array.getElem?_of_mem hg
    exact h.tidy.sound i g hi
  have hlive : ∀ g ∈ s.arena.segments, g.live ≤ s.arena.capacity := fun g hg => by
    rw [(hsound g hg).live_eq]
    exact Array.countP_le_size.trans (hsound g hg).size_le
  refine ⟨by omega, by omega, fun g hg => (hsound g hg).size_le, hlive, fun g hg => ?_,
    fun g hg => ?_, Dump.size_lt h.contents⟩
  · have hengaged := (hsound g hg).size_le
    have hchain := ((hsound g hg).usable.chain_spec hengaged).2.2.2
    omega
  · have hle := hlive g hg
    rw [Segment.length_elements, ← (hsound g hg).live_eq]
    omega

namespace Reached

variable {allowed : Settings → Prop} {made : List Address} {s : Store}

/-- Whatever was reached, no number runs out in any operation, nor in a dump. -/
theorem within_limits (h : Reached allowed made s) : s.Measured ∧
    ∀ (k : Action) (f : Failure), ((Machinery.checked f).run k).on s = k.run.on s :=
  ⟨h.atRest.sound.measured, fun k _ => by
    rw [Machinery.on_run_checked h.atRest k, Machinery.run_plain]⟩

theorem within_limits_sampleStore : Reached (· = .small) sampleMade sampleStore ∧
    sampleStore.Measured ∧ ∀ (k : Action) (f : Failure),
      ((Machinery.checked f).run k).on sampleStore = k.run.on sampleStore :=
  ⟨reached_sampleStore, reached_sampleStore.within_limits⟩

end Reached

end SemanticNet
