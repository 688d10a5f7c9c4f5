import SemanticNet.Proofs.Namings

/-!
# Extensions

A store is extended when there are new elements and all others stay as they are, and the new
connectors go to new elements (`Store.Extends`). Then what was named keeps its name, and a session
finds it as before, as long as no new link has the same content (`Extends.named?_eq`). A new name
takes a link, an arc and a mark that are all new (`Extends.three_le_of_names`).
-/

namespace SemanticNet

theorem Arena.newer_append {made news : List Address} {a b : Address} (ha : a ∉ news)
    (hb : b ∉ news) : Newer (news ++ made) a b ↔ Newer made a b := by
  rw [Newer, Newer, List.idxOf_append_of_notMem ha, List.idxOf_append_of_notMem hb]
  omega

theorem Contents.find_congr {hash : Bytes → UInt64} {c c' : Contents hash} {bytes : Bytes}
    (hc : c.Indexed) (hc' : c'.Indexed)
    (h : ∀ a, c'.get? a = some bytes ↔ c.get? a = some bytes) : c'.find bytes = c.find bytes := by
  refine List.Perm.eq_of_pairwise (fun a b _ _ hlt hlt' => ?_) (c'.pairwise_find bytes)
    (c.pairwise_find bytes)
    ((List.perm_ext_iff_of_nodup (c'.nodup_find bytes) (c.nodup_find bytes)).2 fun a => ?_)
  · exact absurd (Nat.lt_trans hlt hlt') (Nat.lt_irrefl _)
  · rw [hc'.mem_find, hc.mem_find, h]

namespace Store

variable {s s' s'' : Store} {made news news' : List Address} {c : Session} {levels : Access}
  {relation a b : Address} {bytes bytes' : Bytes} {n m : Naming} {e : Element}

/-- What has content is live. -/
theorem AtRest.isSome_of_content (h : s.AtRest made) (ha : s.contents.get? a = some bytes) :
    (s.arena.find? a).isSome := by
  have hlink := h.sound.contents a (Option.isSome_of_eq_some ha)
  rw [Arena.isLinkAt] at hlink
  cases he : s.arena.find? a with
  | some e => rfl
  | none =>
    rw [he] at hlink
    cases hlink

theorem AtRest.content_of_dead (h : s.AtRest made) (ha : s.arena.find? a = none) :
    s.contents.get? a = none := by
  by_contra hsome
  obtain ⟨bytes, hget⟩ := Option.ne_none_iff_exists'.1 hsome
  have hlive := h.isSome_of_content hget
  rw [ha] at hlive
  cases hlive

/-- In `s'` there are the new elements `news`, and the others are as in `s`. New connectors go to
new elements, and the rings that there were have new members at most. -/
structure Extends (s s' : Store) (news : List Address) : Prop where
  fresh : ∀ a ∈ news, s.arena.find? a = none
  bare : ∀ a, a ∉ news → s'.arena.bare? a = s.arena.bare? a
  contents : ∀ a, a ∉ news → s'.contents.get? a = s.contents.get? a
  inward : ∀ b ∈ news, ∀ mask x y, s'.Connects mask b x y → y ∈ news
  ring : ∀ x d cs, s.arena.IsRing x d cs →
    ∃ cs', s'.arena.IsRing x d cs' ∧ cs'.filter (· ∉ news) = cs

namespace Extends

theorem refl (s : Store) : s.Extends s [] where
  fresh a ha := by cases ha
  bare a _ := rfl
  contents a _ := rfl
  inward b hb := by cases hb
  ring x d cs hcs := ⟨cs, hcs, by simp⟩

theorem notMem_of_isSome (h : s.Extends s' news) (ha : (s.arena.find? a).isSome) : a ∉ news := by
  intro hmem
  rw [h.fresh a hmem] at ha
  cases ha

theorem trans (h : s.Extends s' news) (h' : s'.Extends s'' news')  :
    s.Extends s'' (news' ++ news) := by
  have hfresh : ∀ a ∈ news', a ∉ news → s.arena.find? a = none := by
    intro a ha hnot
    have hbare := h.bare a hnot
    rw [Arena.bare?, Arena.bare?, h'.fresh a ha] at hbare
    exact Option.map_eq_none_iff.1 hbare.symm
  refine ⟨fun a ha => ?_, fun a ha => ?_, fun a ha => ?_, fun b hb mask x y hconnects => ?_,
    fun x d cs hcs => ?_⟩
  · by_cases hnew : a ∈ news
    · exact h.fresh a hnew
    · exact hfresh a ((List.mem_append.1 ha).resolve_right hnew) hnew
  · rw [List.mem_append, not_or] at ha
    rw [h'.bare a ha.1, h.bare a ha.2]
  · rw [List.mem_append, not_or] at ha
    rw [h'.contents a ha.1, h.contents a ha.2]
  · by_cases hb' : b ∈ news'
    · exact List.mem_append_left _ (h'.inward b hb' mask x y hconnects)
    · have hmem := (List.mem_append.1 hb).resolve_left hb'
      exact List.mem_append_right _ (h.inward b hmem mask x y (hconnects.of_bare (h'.bare b hb')))
  · obtain ⟨cs', hcs', hfilter⟩ := h.ring x d cs hcs
    obtain ⟨cs'', hcs'', hfilter'⟩ := h'.ring x d cs' hcs'
    refine ⟨cs'', hcs'', ?_⟩
    rw [← hfilter, ← hfilter', List.filter_filter]
    refine List.filter_congr fun b _ => ?_
    simp [not_or, and_comm]

theorem agrees (h : s.Extends s' news) (ha : s'.Agrees s'') : s.Extends s'' news := by
  obtain ⟨arena, contents, census, metrics⟩ := s''
  obtain ⟨rfl, rfl, rfl⟩ := ha
  exact ⟨h.fresh, h.bare, h.contents, h.inward, h.ring⟩

/-- One more element that, if it is a connector, goes to one of the new ones. -/
theorem created (h : s.Extends s' news) (hc : s'.Created s'' b e)
    (hin : ∀ x y, e.Joins x y → y ∈ news) : s.Extends s'' (b :: news) := by
  have hold : ∀ a, a ≠ b → s''.arena.bare? a = s'.arena.bare? a := by
    intro a hab
    rw [hc.grown.bare, if_neg hab]
  refine ⟨fun a ha => ?_, fun a ha => ?_, fun a ha => ?_, fun d hd mask x y hconnects => ?_,
    fun x d cs hcs => ?_⟩
  · by_cases hnew : a ∈ news
    · exact h.fresh a hnew
    · obtain rfl := (List.mem_cons.1 ha).resolve_right hnew
      have hbare := h.bare a hnew
      rw [Arena.bare?, Arena.bare?, hc.grown.fresh] at hbare
      exact Option.map_eq_none_iff.1 hbare.symm
  · rw [List.mem_cons, not_or] at ha
    rw [hold a ha.1, h.bare a ha.2]
  · rw [List.mem_cons, not_or] at ha
    rw [hc.contents, h.contents a ha.2]
  · refine List.mem_cons_of_mem b ?_
    by_cases hdb : d = b
    · subst hdb
      obtain ⟨e', he', hbare⟩ := hc.grown.find?_new
      obtain ⟨e'', he'', -, hjoins⟩ := hconnects
      obtain rfl := Option.some.inj (he'.symm.trans he'')
      exact hin x y ((Element.joins_of_bare hbare).1 hjoins)
    · have hmem := (List.mem_cons.1 hd).resolve_left hdb
      exact h.inward d hmem mask x y (hconnects.of_bare (hold d hdb))
  · obtain ⟨cs', hcs', hfilter⟩ := h.ring x d cs hcs
    refine ⟨_, hc.grown.ring x d cs' hcs', ?_⟩
    have hsame : cs'.filter (· ∉ b :: news) = cs := by
      rw [← hfilter]
      refine List.filter_congr fun a ha => ?_
      simp [hcs'.ne_of_fresh hc.grown.fresh a ha]
    split
    · rw [List.filter_cons_of_neg (by simp), hsame]
    · exact hsame

/-- One more element that is no connector. -/
theorem createdAlone (h : s.Extends s' news) (hc : s'.Created s'' b e)
    (hnone : e.connection = none) : s.Extends s'' (b :: news) := by
  refine h.created hc fun x y hjoins => ?_
  obtain ⟨k, hk, -⟩ := hjoins
  rw [hnone] at hk
  cases hk

theorem setContent (h : s.Extends s' news) (ha : a ∈ news) (bytes : Bytes) :
    s.Extends (s'.changeContents (·.set a bytes)) news := by
  refine ⟨h.fresh, h.bare, fun b hb => ?_, h.inward, h.ring⟩
  have hab : a ≠ b := by
    intro heq
    subst heq
    exact hb ha
  show (s'.contents.set a bytes).get? b = _
  rw [Contents.get?_set, if_neg hab, h.contents b hb]

/-! ## What was there before -/

theorem readable? (h : s.Extends s' news) (ha : a ∉ news) :
    s'.arena.readable? levels a = s.arena.readable? levels a :=
  Arena.readable?_of_bare (h.bare a ha)

theorem mayRead (h : s.Extends s' news) (ha : a ∉ news) : c.mayRead s' a = c.mayRead s a := by
  rw [← readable?_eq_mayRead, h.readable? ha, readable?_eq_mayRead]

theorem notMem_ends (h : s.Extends s' news) (hrest : s.AtRest made) {mask : ElementType}
    {x y : Address} (hb : s.Connects mask b x y) : b ∉ news ∧ x ∉ news ∧ y ∉ news := by
  obtain ⟨hx, hy⟩ := hb.touches
  obtain ⟨e, he, -⟩ := hb
  have hends := hrest.sound.wired.ends
  exact ⟨h.notMem_of_isSome (Option.isSome_of_eq_some he), h.notMem_of_isSome (hends _ _ hx).1,
    h.notMem_of_isSome (hends _ _ hy).1⟩

/-- The connectors to an element that was there before are those that there were. -/
theorem connects_iff (h : s.Extends s' news) (hrest : s.AtRest made) {mask : ElementType}
    {x y : Address} (hy : y ∉ news) : s'.Connects mask b x y ↔ s.Connects mask b x y := by
  constructor
  · intro hconnects
    have hb : b ∉ news := fun hb => hy (h.inward b hb mask x y hconnects)
    exact hconnects.of_bare (h.bare b hb)
  · intro hconnects
    have hb := (h.notMem_ends hrest hconnects).1
    exact hconnects.of_bare (h.bare b hb).symm

/-- A walk to an element that was there before comes to what it came to. -/
theorem walk_to_eq (h : s.Extends s' news) (hrest : s.AtRest made)
    (hrest' : s'.AtRest (news ++ made)) {source : Term} {mask : ElementType} {z : Address}
    (hz : z ∉ news) : s'.walk ⟨source, .any mask, .fixed z⟩ levels
      = s.walk ⟨source, .any mask, .fixed z⟩ levels := by
  have hanchor : (⟨source, .any mask, .fixed z⟩ : Pattern).anchor?.isSome := by
    cases source <;> rfl
  have hnot : ∀ τ ∈ s.walk ⟨source, .any mask, .fixed z⟩ levels, τ.connector ∉ news := by
    intro τ hτ
    exact (h.notMem_ends hrest (hrest.mem_walk_to.1 hτ).1).1
  refine (hrest'.walksRing hanchor levels).eq_of_mem_iff ?_ fun τ => ?_
  · -- the older record orders the connectors that there were in the same way
    refine (hrest.walksRing hanchor levels).newest.imp_of_mem fun {τ τ'} hτ hτ' hnewer => ?_
    exact (Arena.newer_append (hnot τ hτ) (hnot τ' hτ')).2 hnewer
  · rw [hrest.mem_walk_to, hrest'.mem_walk_to]
    by_cases htarget : τ.target = z
    · rw [h.connects_iff hrest (htarget ▸ hz)]
      refine and_congr_right fun hτ => ?_
      obtain ⟨hconnector, hsource, htarget'⟩ := h.notMem_ends hrest hτ
      rw [Term.Fits, Term.Fits, h.readable? hconnector, h.readable? hsource, h.readable? htarget']
    · simp only [htarget, false_and, and_false]

theorem joined_eq (h : s.Extends s' news) (hrest : s.AtRest made)
    (hrest' : s'.AtRest (news ++ made)) (hb : b ∉ news) :
    s'.joined (Naming.pattern relation b) levels = s.joined (Naming.pattern relation b) levels := by
  have hmain : s'.walk ⟨.any .unknown, .any .constCommonArc, .fixed b⟩ levels
      = s.walk ⟨.any .unknown, .any .constCommonArc, .fixed b⟩ levels :=
    h.walk_to_eq hrest hrest' hb
  unfold joined Quintuples.pairs
  show (s'.walk ⟨.any .unknown, .any .constCommonArc, .fixed b⟩ levels).flatMap _ = _
  rw [hmain]
  refine List.flatMap_congr fun τ hτ => ?_
  have hmarks : s'.walk ⟨.fixed relation, .any .constPermPosArc, .fixed τ.connector⟩ levels
      = s.walk ⟨.fixed relation, .any .constPermPosArc, .fixed τ.connector⟩ levels :=
    h.walk_to_eq hrest hrest' (h.notMem_ends hrest (hrest.mem_walk_to.1 hτ).1).1
  exact congrArg _ hmarks

/-- A session finds under a name what it found, unless a new link has that content. -/
theorem named?_eq (h : s.Extends s' news) (hrest : s.AtRest made)
    (hrest' : s'.AtRest (news ++ made)) (hi : s.contents.Indexed) (hi' : s'.contents.Indexed)
    (hbytes : ∀ a ∈ news, s'.contents.get? a ≠ some bytes) :
    s'.named? c relation bytes = s.named? c relation bytes := by
  have hnot : ∀ a ∈ s.contents.find bytes, a ∉ news := by
    intro a ha
    exact h.notMem_of_isSome (hrest.isSome_of_content (hi.mem_find.1 ha))
  have hfind : s'.contents.find bytes = s.contents.find bytes := by
    refine Contents.find_congr hi hi' fun a => ?_
    by_cases ha : a ∈ news
    · have hold : s.contents.get? a ≠ some bytes := fun hget => hnot a (hi.mem_find.2 hget) ha
      simp only [hbytes a ha, hold]
    · rw [h.contents a ha]
  have hsame : c.find s' bytes = c.find s bytes := by
    rw [Session.find, Session.find, hfind]
    exact List.filter_congr fun a ha => h.mayRead (hnot a ha)
  rw [named?, named?, hsame, ← List.head?_filterMap, ← List.head?_filterMap]
  refine congrArg List.head? (List.filterMap_congr fun a ha => ?_)
  rw [h.joined_eq hrest hrest' (hnot a (List.mem_filter.1 ha).1)]

/-! ## Names -/

/-- A name that is held by a link that was there before is an old one. -/
theorem names_of_notMem (h : s.Extends s' news) (hrest : s.AtRest made) (hn : s'.Names bytes n)
    (hlink : n.link ∉ news) :
    s.Names bytes n ∧ ∀ a ∈ n.toList, s'.arena.bare? a = s.arena.bare? a := by
  have harc := (h.connects_iff hrest hlink).1 hn.arc
  obtain ⟨hnotArc, -⟩ := h.notMem_ends hrest harc
  have hold : s.Names bytes n :=
    ⟨(h.contents _ hlink).symm.trans hn.content, harc, (h.connects_iff hrest hnotArc).1 hn.mark⟩
  exact ⟨hold, fun a ha => h.bare a (h.notMem_of_isSome (hrest.isSome_find?_of_names hold a ha))⟩

/-- A connector on a new element is new. -/
theorem mem_of_touches (h : s.Extends s' news) (hrest : s.AtRest made)
    (htouches : s'.arena.Touches b a) (ha : a ∈ news) : b ∈ news := by
  by_contra hb
  have hold := (Arena.touches_of_places (Arena.map_places_of_bare (h.bare b hb))).1 htouches
  have hlive := (hrest.sound.wired.ends b a hold).1
  rw [h.fresh a ha] at hlive
  cases hlive

theorem mem_of_connects (h : s.Extends s' news) (hrest : s.AtRest made) {mask : ElementType}
    {x y : Address} (hconnects : s'.Connects mask b x y) (hy : y ∈ news) : b ∈ news :=
  h.mem_of_touches hrest hconnects.touches.2 hy

theorem subset_of_names (h : s.Extends s' news) (hrest : s.AtRest made) (hn : s'.Names bytes n)
    (hlink : n.link ∈ news) : [n.mark, n.arc, n.link] ⊆ news := by
  have harc := h.mem_of_connects hrest hn.arc hlink
  have hmark := h.mem_of_connects hrest hn.mark harc
  simp [hlink, harc, hmark]

end Extends

/-- The mark of a naming was made after its arc, and the arc after its link. -/
theorem AtRest.newer_of_names (h : s.AtRest made) (hn : s.Names bytes n) :
    [n.mark, n.arc, n.link].Pairwise (Arena.Newer made) := by
  have harc := (h.sound.wired.ends _ _ hn.arc.touches.2).2
  have hmark := (h.sound.wired.ends _ _ hn.mark.touches.2).2
  have hboth : Arena.Newer made n.mark n.link := Nat.lt_trans hmark harc
  simp [harc, hmark, hboth]

/-- The connectors and the link of a naming are three elements. -/
theorem AtRest.nodup_of_names (h : s.AtRest made) (hn : s.Names bytes n) :
    [n.mark, n.arc, n.link].Nodup := by
  refine (h.newer_of_names hn).imp fun hlt heq => ?_
  subst heq
  exact Nat.lt_irrefl _ hlt

namespace Extends

/-- It takes three new elements to give a name to a new link. -/
theorem three_le_of_names {made' : List Address} (h : s.Extends s' news) (hrest : s.AtRest made)
    (hrest' : s'.AtRest made') (hn : s'.Names bytes n) (hlink : n.link ∈ news) :
    3 ≤ news.length :=
  ((hrest'.nodup_of_names hn).subperm (h.subset_of_names hrest hn hlink)).length_le

/-- Three new elements are enough for one name only. -/
theorem eq_of_names {made' : List Address} (h : s.Extends s' news) (hrest : s.AtRest made)
    (hrest' : s'.AtRest made') (hlength : news.length = 3) (hn : s'.Names bytes n)
    (hm : s'.Names bytes' m) (hlink : n.link ∈ news) (hlink' : m.link ∈ news) :
    [n.mark, n.arc, n.link] = [m.mark, m.arc, m.link] := by
  have hperm : ∀ {k : Naming} {bytes : Bytes}, s'.Names bytes k → k.link ∈ news →
      [k.mark, k.arc, k.link].Perm news := by
    intro k bytes hk hmem
    have hsub := (hrest'.nodup_of_names hk).subperm (h.subset_of_names hrest hk hmem)
    refine hsub.perm_of_length_le ?_
    rw [hlength]
    rfl
  refine List.Perm.eq_of_pairwise (fun a b _ _ hlt hlt' => ?_) (hrest'.newer_of_names hn)
    (hrest'.newer_of_names hm) ((hperm hn hlink).trans (hperm hm hlink').symm)
  exact absurd (Nat.lt_trans hlt hlt') (Nat.lt_irrefl _)

end Extends

end Store

end SemanticNet
