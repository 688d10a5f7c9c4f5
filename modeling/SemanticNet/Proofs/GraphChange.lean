import SemanticNet.Proofs.Graph

/-!
# Larger and smaller graphs

What becomes of the rings of an arena when an element is added (`Arena.Grown`) and when several are
taken away (`Arena.Without`). A wired arena stays wired: an addition comes in front of its rings,
and what goes has to go together with the connectors on it.
-/

namespace SemanticNet.Arena

variable {t t' t'' : Arena} {a b c x y : Address} {d : Direction} {as bs cs made : List Address}
  {e : Element} {ps : List (Address × Direction)}

/-- In `t'` there is the new element `c` in front of the rings that it belongs to. -/
structure Grown (t t' : Arena) (c : Address) (e : Element) : Prop where
  fresh : t.find? c = none
  bare : ∀ b, t'.bare? b = if b = c then some e.bare else t.bare? b
  ring : ∀ x d cs, t.IsRing x d cs → t'.IsRing x d (if (x, d) ∈ e.places then c :: cs else cs)
  own : ∀ d, t'.IsRing c d []

/-- In `t'` the elements `as` are gone, and each other ring has lost those of its members that are
among them. -/
structure Without (t t' : Arena) (as : List Address) : Prop where
  bare : ∀ b, t'.bare? b = if b ∈ as then none else t.bare? b
  ring : ∀ x d cs, x ∉ as → t.IsRing x d cs → t'.IsRing x d (cs.filter (· ∉ as))

/-! ## Splicing into several rings -/

/-- After one ring the others are spliced, and none of them is the first one again. -/
theorem splice_cons {f : List Address → List Address} {y : Address} {d' : Direction}
    {cs₀ : List Address} (hp : (y, d') ∉ ps) (h₀ : t.IsRing y d' cs₀)
    (h₁ : t'.IsRing y d' (f cs₀)) (hsame : SameBut t t' y d')
    (hrest : ∀ x d cs, t'.IsRing x d cs → t''.IsRing x d (if (x, d) ∈ ps then f cs else cs)) :
    ∀ x d cs, t.IsRing x d cs →
      t''.IsRing x d (if (x, d) ∈ (y, d') :: ps then f cs else cs) := by
  intro x d cs hcs
  by_cases hxy : x = y ∧ d = d'
  · obtain ⟨rfl, rfl⟩ := hxy
    have := hrest x d _ h₁
    rw [if_neg hp, ← hcs.unique h₀] at this
    simpa using this
  · have := hrest x d cs (hcs.of_sameBut hsame hxy)
    simpa [hxy] using this

/-- Attaching a connector to several rings puts it in front of each of them. -/
theorem attachAll_spec (hps : ps.Nodup) (hlinks : ∀ p ∈ ps, (t.linksOf p.1 p.2 c).isSome)
    (hrings : ∀ p ∈ ps, ∃ cs, t.IsRing p.1 p.2 cs ∧ c ∉ cs) :
    ∃ t', (Store.attachAll c ps).on t = (.ok (), t') ∧ (∀ b, t'.bare? b = t.bare? b) ∧
      ∀ x d cs, t.IsRing x d cs → t'.IsRing x d (if (x, d) ∈ ps then c :: cs else cs) := by
  induction ps generalizing t with
  | nil => exact ⟨t, rfl, fun _ => rfl, fun x d cs h => by simpa using h⟩
  | cons p ps ih =>
    obtain ⟨y, d'⟩ := p
    obtain ⟨hp, hps⟩ := List.nodup_cons.1 hps
    obtain ⟨cs₀, hcs₀, hn₀⟩ := hrings (y, d') List.mem_cons_self
    obtain ⟨t₁, hrun₁, hring₁, hsame₁⟩ := attach_spec hcs₀ (hlinks _ List.mem_cons_self) hn₀
    have hother : ∀ q ∈ ps, ¬(q.1 = y ∧ q.2 = d') := by
      rintro ⟨x, d⟩ hq ⟨rfl, rfl⟩
      exact hp hq
    obtain ⟨t₂, hrun₂, hbare₂, hring₂⟩ := ih hps
      (fun q hq => by
        rw [hsame₁.links _ _ (hother q hq)]
        exact hlinks q (List.mem_cons_of_mem _ hq))
      (fun q hq => by
        obtain ⟨cs, hcs, hn⟩ := hrings q (List.mem_cons_of_mem _ hq)
        exact ⟨cs, hcs.of_sameBut hsame₁ (hother q hq), hn⟩)
    refine ⟨t₂, ?_, fun b => (hbare₂ b).trans (hsame₁.bare b), ?_⟩
    · simp only [Machinery.attachAll, Step.on_bind, hrun₁, hrun₂]
    · exact splice_cons hp hcs₀ hring₁ hsame₁ hring₂

/-- Detaching a connector from several rings takes it out of each of them. -/
theorem detachAll_spec (hps : ps.Nodup) (hrings : ∀ p ∈ ps, ∃ cs, t.IsRing p.1 p.2 cs ∧ c ∈ cs) :
    ∃ t', (detachAll c ps).on t = (.ok (), t') ∧ (∀ b, t'.bare? b = t.bare? b) ∧
      ∀ x d cs, t.IsRing x d cs → t'.IsRing x d (if (x, d) ∈ ps then cs.erase c else cs) := by
  induction ps generalizing t with
  | nil => exact ⟨t, rfl, fun _ => rfl, fun x d cs h => by simpa using h⟩
  | cons p ps ih =>
    obtain ⟨y, d'⟩ := p
    obtain ⟨hp, hps⟩ := List.nodup_cons.1 hps
    obtain ⟨cs₀, hcs₀, hmem₀⟩ := hrings (y, d') List.mem_cons_self
    obtain ⟨t₁, hrun₁, hring₁, hsame₁⟩ := detach_spec hcs₀ hmem₀
    have hother : ∀ q ∈ ps, ¬(q.1 = y ∧ q.2 = d') := by
      rintro ⟨x, d⟩ hq ⟨rfl, rfl⟩
      exact hp hq
    obtain ⟨t₂, hrun₂, hbare₂, hring₂⟩ := ih hps fun q hq => by
      obtain ⟨cs, hcs, hmem⟩ := hrings q (List.mem_cons_of_mem _ hq)
      exact ⟨cs, hcs.of_sameBut hsame₁ (hother q hq), hmem⟩
    refine ⟨t₂, ?_, fun b => (hbare₂ b).trans (hsame₁.bare b), ?_⟩
    · simp only [Machinery.detachAll, Step.on_bind, hrun₁, hrun₂]
    · exact splice_cons hp hcs₀ hring₁ hsame₁ hring₂

/-! ## Smaller graphs -/

theorem Without.refl (t : Arena) : t.Without t [] where
  bare b := by simp
  ring x d cs _ h := by simpa using h

theorem Without.trans (h : t.Without t' as) (h' : t'.Without t'' bs) :
    t.Without t'' (as ++ bs) where
  bare b := by
    rw [h'.bare, h.bare]
    by_cases ha : b ∈ as <;> by_cases hb : b ∈ bs <;> simp [ha, hb]
  ring x d cs hx hcs := by
    obtain ⟨hxa, hxb⟩ : x ∉ as ∧ x ∉ bs := by simpa using hx
    have := h'.ring x d _ hxb (h.ring x d cs hxa hcs)
    rw [List.filter_filter] at this
    convert this using 2
    funext c
    simp [Bool.and_comm]

/-- Only the set of what is gone matters. -/
theorem Without.of_mem_iff (h : t.Without t' as) (hab : ∀ c, c ∈ bs ↔ c ∈ as) :
    t.Without t' bs where
  bare b := by
    rw [h.bare]
    simp only [hab]
  ring x d cs hx hcs := by
    have := h.ring x d cs (mt (hab x).2 hx) hcs
    simpa only [hab] using this

theorem Without.isSome_find? (h : t.Without t' as) :
    (t'.find? b).isSome ↔ b ∉ as ∧ (t.find? b).isSome := by
  rw [← isSome_bare?, h.bare, ← isSome_bare?]
  split <;> simp_all

theorem Without.incident (h : t.Without t' as) :
    t'.Incident x d c ↔ c ∉ as ∧ t.Incident x d c := by
  by_cases hc : c ∈ as
  · have hgone : t'.find? c = none := by
      rw [← Option.not_isSome_iff_eq_none, h.isSome_find?]
      simp [hc]
    simp [Incident, hgone, hc]
  · have hsame : t'.bare? c = t.bare? c := by rw [h.bare, if_neg hc]
    rw [incident_congr (map_places_of_bare hsame)]
    simp [hc]

theorem Without.touches (h : t.Without t' as) : t'.Touches c x ↔ c ∉ as ∧ t.Touches c x := by
  simp only [touches_iff, h.incident, exists_and_left]

/-- What goes together with the connectors on it leaves a wired arena behind. -/
theorem Wired.without (h : t.Wired made) (hw : t.Without t' as)
    (hclosed : ∀ a ∈ as, ∀ c, t.Touches c a → c ∈ as) : t'.Wired made where
  ring x d hx := by
    obtain ⟨hxa, hxt⟩ := hw.isSome_find?.1 hx
    obtain ⟨cs, hcs, hmem⟩ := h.ring x d hxt
    refine ⟨_, hw.ring x d cs hxa hcs, fun c => ?_⟩
    rw [List.mem_filter, hmem, hw.incident]
    simp [and_comm]
  newest x d cs' hcs' := by
    obtain ⟨hxa, hxt⟩ := hw.isSome_find?.1 hcs'.isSome_owner
    obtain ⟨cs, hcs, -⟩ := h.ring x d hxt
    rw [hcs'.unique (hw.ring x d cs hxa hcs)]
    exact (h.newest x d cs hcs).filter _
  ends c x hcx := by
    obtain ⟨hca, htouch⟩ := hw.touches.1 hcx
    obtain ⟨hxt, hnewer⟩ := h.ends c x htouch
    exact ⟨hw.isSome_find?.2 ⟨fun hxa => hca (hclosed x hxa c htouch), hxt⟩, hnewer⟩
  recorded x hx := h.recorded x (hw.isSome_find?.1 hx).2

/-- An element on which there is no connector goes, once it has left its rings and its slot. -/
theorem Wired.withdraw (h : t.Wired made) (he : t.find? a = some e)
    (hbare : ∀ b, t'.bare? b = t.bare? b)
    (hring : ∀ x d cs, t.IsRing x d cs →
      t'.IsRing x d (if (x, d) ∈ e.places then cs.erase a else cs))
    (hfree : ∀ b, t''.find? b = if b = a then none else t'.find? b) : t.Without t'' [a] where
  bare b := by
    rw [bare?, hfree]
    by_cases hba : b = a
    · simp [hba]
    · rw [if_neg hba, if_neg (by simpa using hba)]
      exact hbare b
  ring x d cs hx hcs := by
    have hxa : x ≠ a := by simpa using hx
    obtain ⟨cs', hcs', hmem⟩ := h.ring x d hcs.isSome_owner
    obtain rfl := hcs.unique hcs'
    -- where `a` is not a member there is nothing to take out
    have herase : (if (x, d) ∈ e.places then cs.erase a else cs) = cs.filter (· ∉ [a]) := by
      have hfilter : cs.erase a = cs.filter (· ∉ [a]) := by
        rw [hcs.nodup.erase_eq_filter]
        exact List.filter_congr fun c _ => by by_cases hca : c = a <;> simp [hca]
      split
      · exact hfilter
      next hnot =>
        have hna : a ∉ cs := by
          rw [hmem]
          intro hinc
          obtain ⟨e', he', hp⟩ := hinc
          rw [he] at he'
          cases he'
          exact hnot hp
        rw [← hfilter, List.erase_of_not_mem hna]
    rw [← herase]
    refine (hring x d cs hcs).of_threads (by rw [hfree, if_neg hxa]) fun c hc => ?_
    have hca : c ≠ a := by
      intro heq
      subst heq
      rw [herase] at hc
      simp at hc
    rw [hfree, if_neg hca]

/-! ## Larger graphs -/

theorem ne_of_fresh (hc : t.find? c = none) (hb : (t.find? b).isSome) : b ≠ c := by
  intro heq
  subst heq
  simp [hc] at hb

/-- A fresh address is on no ring. -/
theorem IsRing.ne_of_fresh (h : t.IsRing x d cs) (hc : t.find? c = none) : ∀ b ∈ cs, b ≠ c := by
  intro b hb
  obtain ⟨e, he⟩ := h.mem_live hb
  exact Arena.ne_of_fresh hc (Option.isSome_of_eq_some he)

theorem Grown.isSome_find? (h : t.Grown t' c e) :
    (t'.find? b).isSome ↔ b = c ∨ (t.find? b).isSome := by
  rw [← isSome_bare?, h.bare, ← isSome_bare?]
  split <;> simp_all

theorem Grown.find?_new (h : t.Grown t' c e) : ∃ e', t'.find? c = some e' ∧ e'.bare = e.bare := by
  have := h.bare c
  rw [if_pos rfl] at this
  exact bare?_eq_some.1 this

theorem Grown.incident (h : t.Grown t' c e) :
    t'.Incident x d b ↔ if b = c then (x, d) ∈ e.places else t.Incident x d b := by
  split
  next hbc =>
    subst hbc
    obtain ⟨e', he', hbare⟩ := h.find?_new
    rw [Incident, ← Element.places_congr hbare]
    simp [he']
  next hbc =>
    have hsame : t'.bare? b = t.bare? b := by rw [h.bare, if_neg hbc]
    exact incident_congr (map_places_of_bare hsame)

theorem newer_cons (ha : a ≠ c) (hb : b ≠ c) : Newer (c :: made) a b ↔ Newer made a b := by
  rw [Newer, Newer, List.idxOf_cons_ne _ ha.symm, List.idxOf_cons_ne _ hb.symm]
  omega

theorem newer_head (hb : b ≠ c) : Newer (c :: made) c b := by
  rw [Newer, List.idxOf_cons_self, List.idxOf_cons_ne _ hb.symm]
  omega

/-- A new element whose ends are live leaves a wired arena behind. -/
theorem Wired.grown (h : t.Wired made) (hg : t.Grown t' c e)
    (hends : ∀ p ∈ e.places, (t.find? p.1).isSome) : t'.Wired (c :: made) := by
  have hne : ∀ {b}, (t.find? b).isSome → b ≠ c := ne_of_fresh hg.fresh
  have hmem : ∀ {x d cs}, t.IsRing x d cs → ∀ b ∈ cs, b ≠ c := fun hcs => hcs.ne_of_fresh hg.fresh
  refine ⟨fun x d hx => ?_, fun x d cs' hcs' => ?_, fun b x hbx => ?_, fun x hx => ?_⟩
  · rcases hg.isSome_find?.1 hx with rfl | hxt
    · -- nothing has the new element for an end yet
      refine ⟨[], hg.own d, fun b => ?_⟩
      rw [hg.incident]
      split
      · simp only [List.not_mem_nil, false_iff]
        exact fun hp => hne (hends _ hp) rfl
      · simp only [List.not_mem_nil, false_iff]
        exact fun hi => hne (h.ends b x (touches_iff.2 ⟨d, hi⟩)).1 rfl
    · obtain ⟨cs, hcs, hcsmem⟩ := h.ring x d hxt
      refine ⟨_, hg.ring x d cs hcs, fun b => ?_⟩
      rw [hg.incident]
      -- the new element is the only one that may have joined the ring
      by_cases hbc : b = c
      · subst hbc
        have hnot : b ∉ cs := fun hb => hmem hcs b hb rfl
        split <;> simp_all
      · split <;> simp [hbc, hcsmem]
  · rcases hg.isSome_find?.1 hcs'.isSome_owner with rfl | hxt
    · rw [hcs'.unique (hg.own d)]
      exact List.Pairwise.nil
    · obtain ⟨cs, hcs, -⟩ := h.ring x d hxt
      -- one more creation leaves the order of the earlier ones as it is
      have hold : cs.Pairwise (Newer (c :: made)) :=
        (h.newest x d cs hcs).imp_of_mem fun ha hb hab =>
          (newer_cons (hmem hcs _ ha) (hmem hcs _ hb)).2 hab
      rw [hcs'.unique (hg.ring x d cs hcs)]
      split
      · exact List.pairwise_cons.2 ⟨fun b hb => newer_head (hmem hcs b hb), hold⟩
      · exact hold
  · obtain ⟨d, hi⟩ := touches_iff.1 hbx
    rw [hg.incident] at hi
    split at hi
    next hbc =>
      subst hbc
      have hxt := hends _ hi
      exact ⟨hg.isSome_find?.2 (.inr hxt), newer_head (hne hxt)⟩
    next hbc =>
      obtain ⟨hxt, hnewer⟩ := h.ends b x (touches_iff.2 ⟨d, hi⟩)
      exact ⟨hg.isSome_find?.2 (.inr hxt), (newer_cons hbc (hne hxt)).2 hnewer⟩
  · rcases hg.isSome_find?.1 hx with rfl | hxt
    · exact List.mem_cons_self
    · exact List.mem_cons_of_mem c (h.recorded x hxt)

/-- Storing a new element leaves the rings as they are. -/
theorem IsRing.stored (h : t.IsRing x d cs) (hs : Stored t t' c e) : t'.IsRing x d cs := by
  refine h.of_threads ?_ fun b hb => ?_
  · rw [hs.find?, if_neg (Arena.ne_of_fresh hs.fresh h.isSome_owner)]
  · rw [hs.find?, if_neg (h.ne_of_fresh hs.fresh b hb)]

/-- A new element comes in front of the rings of its places. -/
theorem grown_of_stored (hs : Stored t t' c e) (hempty : ∀ d, e.ring d = {})
    (hends : ∀ p ∈ e.places, ∃ cs, t.IsRing p.1 p.2 cs) :
    ∃ t'', (Store.attachAll c e.places).on t' = (.ok (), t'') ∧ t.Grown t'' c e := by
  have hold : ∀ {b}, (t.find? b).isSome → b ≠ c := ne_of_fresh hs.fresh
  have hmem : ∀ {x d cs}, t.IsRing x d cs → ∀ b ∈ cs, b ≠ c := fun hcs => hcs.ne_of_fresh hs.fresh
  have hfind : t'.find? c = some e := by rw [hs.find?, if_pos rfl]
  -- the rings of the element itself are empty
  have hown : ∀ d, t'.IsRing c d [] := fun d => by
    refine ⟨List.nodup_nil, ⟨{}, ?_, rfl, rfl⟩, Links.circle_nil⟩
    rw [ring?, hfind, Option.map_some, hempty]
  obtain ⟨t'', hrun, hbare, hrings⟩ := attachAll_spec (t := t') (c := c) e.nodup_places
    (fun p hp => by
      rw [linksOf, hfind]
      exact Element.link?_isSome_iff.2 hp)
    (fun p hp => by
      obtain ⟨cs, hcs⟩ := hends p hp
      exact ⟨cs, hcs.stored hs, fun hc => hmem hcs c hc rfl⟩)
  refine ⟨t'', hrun, hs.fresh, fun b => ?_, fun x d cs hcs => hrings x d cs (hcs.stored hs),
    fun d => ?_⟩
  · rw [hbare, bare?, hs.find?]
    split <;> rfl
  · have hnot : (c, d) ∉ e.places := fun hp => by
      obtain ⟨cs, hcs⟩ := hends _ hp
      exact hold hcs.isSome_owner rfl
    have := hrings c d [] (hown d)
    rwa [if_neg hnot] at this

end SemanticNet.Arena
