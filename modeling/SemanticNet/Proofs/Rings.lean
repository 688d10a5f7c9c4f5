import SemanticNet.Arena.Ring
import SemanticNet.Proofs.Allocation
import SemanticNet.Proofs.Circle
import SemanticNet.Proofs.Places

/-!
# Splicing

`Arena.IsRing` says that a ring of an element is the closed list `cs`, head first, and that its
owner counts it rightly; `Arena.IsCycle` says so of a ring whose count may be any number. Attaching
a connector puts it in front of that list (`attach_spec`), detaching one takes it out of the list
(`detach_spec`), and either leaves every other ring as it is (`SameBut`).
-/

namespace SemanticNet.Arena

open Links

variable {t t' t'' : Arena} {a c x y : Address} {d d' : Direction} {cs ds : List Address}
  {e : Element} {l : RingLink} {r : RingHead} {n m : UInt32}

/-- The link of each address in a ring of `x`. -/
def linksOf (t : Arena) (x : Address) (d : Direction) : Links :=
  fun c => (t.find? c).bind (·.link? x d)

/-- The head of a ring and the count of its members. -/
def ring? (t : Arena) (x : Address) (d : Direction) : Option RingHead := (t.find? x).map (·.ring d)

/-- The element at an address without its rings and links. -/
def bare? (t : Arena) (a : Address) : Option Element := (t.find? a).map Element.bare

/-- The ring of `x` in a direction is the closed list `cs`, head first. -/
structure IsRing (t : Arena) (x : Address) (d : Direction) (cs : List Address) : Prop where
  nodup : cs.Nodup
  head : ∃ r, t.ring? x d = some r ∧ r.first = cs.headD .empty ∧ r.count.toNat = cs.length
  closed : (t.linksOf x d).Circle cs

/-- The ring of `x` in a direction is the closed list `cs`, head first, and `x` counts `n`
members. -/
structure IsCycle (t : Arena) (x : Address) (d : Direction) (cs : List Address) (n : UInt32) :
    Prop where
  nodup : cs.Nodup
  head : t.ring? x d = some ⟨cs.headD .empty, n⟩
  closed : (t.linksOf x d).Circle cs

theorem isRing_iff : t.IsRing x d cs ↔ ∃ n, t.IsCycle x d cs n ∧ n.toNat = cs.length := by
  constructor
  · intro h
    obtain ⟨⟨first, n⟩, hr, rfl, hcount⟩ := h.head
    exact ⟨n, ⟨h.nodup, hr, h.closed⟩, hcount⟩
  · rintro ⟨n, h, hcount⟩
    exact ⟨h.nodup, ⟨_, h.head, rfl, hcount⟩, h.closed⟩

/-- Nothing but one ring of `x` is different in `t'`. -/
structure SameBut (t t' : Arena) (x : Address) (d : Direction) : Prop where
  bare : ∀ a, t'.bare? a = t.bare? a
  links : ∀ y d', ¬(y = x ∧ d' = d) → t'.linksOf y d' = t.linksOf y d'
  ring : ∀ y d', ¬(y = x ∧ d' = d) → t'.ring? y d' = t.ring? y d'

theorem SameBut.trans (h : SameBut t t' x d) (h' : SameBut t' t'' x d) : SameBut t t'' x d where
  bare a := (h'.bare a).trans (h.bare a)
  links y d' hy := (h'.links y d' hy).trans (h.links y d' hy)
  ring y d' hy := (h'.ring y d' hy).trans (h.ring y d' hy)

theorem SameBut.symm (h : SameBut t t' x d) : SameBut t' t x d where
  bare a := (h.bare a).symm
  links y d' hy := (h.links y d' hy).symm
  ring y d' hy := (h.ring y d' hy).symm

/-- Every other ring is the list that it was. -/
theorem IsCycle.of_sameBut (h : SameBut t t' x d) (hy : ¬(y = x ∧ d' = d))
    (hr : t.IsCycle y d' cs n) : t'.IsCycle y d' cs n where
  nodup := hr.nodup
  head := by
    rw [h.ring y d' hy]
    exact hr.head
  closed := by
    rw [h.links y d' hy]
    exact hr.closed

theorem IsRing.of_sameBut (h : SameBut t t' x d) (hy : ¬(y = x ∧ d' = d)) (hr : t.IsRing y d' cs) :
    t'.IsRing y d' cs := by
  obtain ⟨n, hcycle, hcount⟩ := isRing_iff.1 hr
  exact isRing_iff.2 ⟨n, hcycle.of_sameBut h hy, hcount⟩

theorem bare?_eq_some : t.bare? a = some e ↔ ∃ e', t.find? a = some e' ∧ e'.bare = e := by
  rw [bare?, Option.map_eq_some_iff]

theorem isSome_bare? : (t.bare? a).isSome = (t.find? a).isSome := by
  rw [bare?, Option.isSome_map]

/-- A member of a ring is live. -/
theorem find?_of_circle (h : (t.linksOf x d).Circle cs) (hc : c ∈ cs) :
    ∃ e, t.find? c = some e := by
  have := isSome_of_circle h hc
  rw [linksOf] at this
  cases he : t.find? c with
  | none => simp [he] at this
  | some e => exact ⟨e, rfl⟩

theorem ne_empty_of_circle (h : (t.linksOf x d).Circle cs) (hc : c ∈ cs) : c ≠ .empty := by
  obtain ⟨e, he⟩ := find?_of_circle h hc
  exact ne_empty_of_find? he

theorem IsRing.mem_live (h : t.IsRing x d cs) (hc : c ∈ cs) : ∃ e, t.find? c = some e :=
  find?_of_circle h.closed hc

theorem IsRing.ne_empty (h : t.IsRing x d cs) (hc : c ∈ cs) : c ≠ .empty :=
  ne_empty_of_circle h.closed hc

/-! ## Single changes -/

theorem linkOf_of_links (h : t.linksOf x d c = some l) : t.linkOf c x d = .ok l := by
  obtain ⟨e, he, hl⟩ := Option.bind_eq_some_iff.1 h
  simp [linkOf, fetch, he, hl, bind, Except.bind, pure, Except.pure]

/-- Changing a link changes one ring. -/
theorem relink_spec (f : RingLink → RingLink) (h : (t.linksOf x d c).isSome) :
    ∃ t', (relink c x d f).on t = (.ok (), t') ∧ t'.linksOf x d = (t.linksOf x d).modify c f ∧
      t'.ring? x d = t.ring? x d ∧ SameBut t t' x d := by
  obtain ⟨l, hl⟩ := Option.isSome_iff_exists.1 h
  have hrun : (relink c x d f).on t = (.ok (), t.update c (·.setLink x d (f l))) := by
    simp [relink, Step.on_bind, linkOf_of_links hl]
  have hring : ∀ y d', (t.update c (·.setLink x d (f l))).ring? y d' = t.ring? y d' := by
    intro y d'
    rw [ring?, find?_update]
    split
    · rw [Option.map_map]
      exact congrArg (Option.map · (t.find? y)) (funext fun e => Element.ring_setLink)
    · rfl
  refine ⟨_, hrun, funext fun a => ?_, hring x d, fun a => ?_, fun y d' hy => funext fun a => ?_,
    fun y d' _ => hring y d'⟩
  · simp only [linksOf, Links.modify, find?_update, eq_comm (a := c)]
    split
    next hac =>
      subst hac
      obtain ⟨e, he, hle⟩ := Option.bind_eq_some_iff.1 hl
      simp [he, hle, Element.link?_setLink]
    next => rfl
  · rw [bare?, find?_update]
    split
    · rw [Option.map_map]
      exact congrArg (Option.map · (t.find? a)) (funext fun e => Element.bare_setLink)
    · rfl
  · simp only [linksOf, find?_update]
    split
    · cases t.find? a with
      | none => rfl
      | some e => simp [Element.link?_setLink, hy]
    · rfl

/-- Changing the head of a ring changes no link. -/
theorem alter_ring_spec (f : Element → RingHead) (he : t.find? x = some e) :
    ∃ t', (alter x fun e => e.setRing (f e) d).on t = (.ok (), t') ∧
      t'.linksOf x d = t.linksOf x d ∧ t'.ring? x d = some (f e) ∧ SameBut t t' x d := by
  have hrun : (alter x fun e => e.setRing (f e) d).on t
      = (.ok (), t.update x fun e => e.setRing (f e) d) := by
    simp [alter, Step.on_bind, fetch, he]
  have hlinks : ∀ y d', (t.update x fun e => e.setRing (f e) d).linksOf y d' = t.linksOf y d' := by
    intro y d'
    funext a
    rw [linksOf, find?_update]
    split
    · cases h : t.find? a <;> simp [linksOf, h]
    · rfl
  refine ⟨_, hrun, hlinks x d, ?_, fun a => ?_, fun y d' _ => hlinks y d', fun y d' hy => ?_⟩
  · simp [ring?, find?_update, he, Element.ring_setRing]
  · rw [bare?, find?_update]
    split
    · cases h : t.find? a <;> simp [bare?, h]
    · rfl
  · rw [ring?, find?_update]
    split
    next hxy =>
      have hd : d' ≠ d := fun h => hy ⟨hxy.symm, h⟩
      cases h : t.find? y <;> simp [ring?, h, Element.ring_setRing, hd]
    next => rfl

/-! ## Attaching -/

theorem isSome_modify {L : Links} {f : RingLink → RingLink} :
    (L.modify c f a).isSome = (L a).isSome := by
  rw [Links.modify]
  split <;> simp

/-- The head of a ring with members leads to its last member. -/
theorem linkOf_head {b : Address} (h : (t.linksOf x d).Circle (b :: cs)) :
    ∃ l, t.linkOf b x d = .ok l ∧ l.prev = (b :: cs).getLast (List.cons_ne_nil b cs) := by
  obtain ⟨l, hl⟩ := Option.isSome_iff_exists.1 (isSome_of_circle h List.mem_cons_self)
  have hprev := (circle_cons.1 h).2.2
  rw [hl] at hprev
  exact ⟨l, linkOf_of_links hl, by simpa using hprev⟩

/-- There are fewer distinct addresses of elements than a count can hold. -/
theorem length_lt_of_nodup (hd : cs.Nodup) (h : ∀ c ∈ cs, c ≠ .empty) : cs.length < 2 ^ 32 := by
  -- packed addresses are numbers below `2 ^ 32`, and 0 is the empty one
  have hinj : (cs.map Address.packed).Nodup := hd.map fun a b => Address.packed_inj
  have hsub : cs.map Address.packed ⊆ List.range' 1 (2 ^ 32 - 1) := by
    intro n hn
    obtain ⟨c, hc, rfl⟩ := List.mem_map.1 hn
    have hlt : c.packed < 2 ^ 32 := c.packed_lt
    have hpos : c.packed ≠ 0 := fun h0 => h c hc (Address.packed_inj h0)
    exact List.mem_range'_1.2 ⟨by omega, by omega⟩
  have hle := (List.subperm_of_subset hinj hsub).length_le
  rw [List.length_map, List.length_range'] at hle
  omega

/-- When the links of a ring close to a circle with a new first member, its owner takes note. -/
theorem alter_head_spec (hc : (t.linksOf x d).Circle (c :: cs)) (hr : t.ring? x d = some r)
    (hd : (c :: cs).Nodup) :
    ∃ t', (alter x fun e => e.setRing ⟨c, (e.ring d).count + 1⟩ d).on t = (.ok (), t') ∧
      t'.IsCycle x d (c :: cs) (r.count + 1) ∧ SameBut t t' x d := by
  obtain ⟨e, he, rfl⟩ := Option.map_eq_some_iff.1 hr
  obtain ⟨t', hrun, hlinks, hring, hsame⟩ :=
    alter_ring_spec (d := d) (fun e => ⟨c, (e.ring d).count + 1⟩) he
  exact ⟨t', hrun, ⟨hd, hring, hlinks ▸ hc⟩, hsame⟩

/-- Attaching a connector to a ring puts it in front of the others. -/
theorem IsCycle.attach (h : t.IsCycle x d cs n) (hc : (t.linksOf x d c).isSome) (hn : c ∉ cs) :
    ∃ t', (attach c x d).on t = (.ok (), t') ∧ t'.IsCycle x d (c :: cs) (n + 1) ∧
      SameBut t t' x d := by
  have hr := h.head
  obtain ⟨e, he, hring⟩ := Option.map_eq_some_iff.1 hr
  have hd : (c :: cs).Nodup := List.nodup_cons.2 ⟨hn, h.nodup⟩
  have hfetch : t.fetch x = .ok e := by rw [fetch, he]
  -- into an empty ring the connector is put on its own, into any other before the head
  cases cs with
  | nil =>
    have hempty : (e.ring d).first.isEmpty = true := by
      rw [hring]
      rfl
    obtain ⟨t₁, hrun₁, hlinks₁, hring₁, hsame₁⟩ := relink_spec (fun _ => .alone c) hc
    have hcircle : (t₁.linksOf x d).Circle [c] := by
      rw [circle_singleton, hlinks₁]
      obtain ⟨l, hl⟩ := Option.isSome_iff_exists.1 hc
      simp [Links.modify, hl]
    obtain ⟨t₂, hrun₂, hcycle, hsame₂⟩ := alter_head_spec hcircle (hring₁.trans hr) hd
    refine ⟨t₂, ?_, hcycle, hsame₁.trans hsame₂⟩
    simp only [Arena.attach, Step.on_bind, Step.on_ask, hfetch, hempty, if_true, hrun₁, hrun₂]
  | cons b cs =>
    have hb : (e.ring d).first = b := by
      rw [hring]
      rfl
    have hnot : ¬b.isEmpty = true := by
      intro hb
      exact ne_empty_of_circle h.closed List.mem_cons_self (Address.isEmpty_iff.1 hb)
    obtain ⟨l, hlink, hlast⟩ := linkOf_head h.closed
    have hlastmem : l.prev ∈ b :: cs := hlast ▸ List.getLast_mem _
    obtain ⟨t₁, hrun₁, hlinks₁, hring₁, hsame₁⟩ := relink_spec (fun _ => ⟨l.prev, b⟩) hc
    obtain ⟨t₂, hrun₂, hlinks₂, hring₂, hsame₂⟩ :=
      relink_spec (t := t₁) (c := l.prev) (x := x) (d := d) ({ · with next := c })
        (by rw [hlinks₁, isSome_modify]; exact isSome_of_circle h.closed hlastmem)
    obtain ⟨t₃, hrun₃, hlinks₃, hring₃, hsame₃⟩ :=
      relink_spec (t := t₂) (c := b) (x := x) (d := d) ({ · with prev := c })
        (by
          rw [hlinks₂, isSome_modify, hlinks₁, isSome_modify]
          exact isSome_of_circle h.closed List.mem_cons_self)
    -- the three changes are the insertion between the last member and the head
    have hcircle : (t₃.linksOf x d).Circle (c :: b :: cs) := by
      rw [hlinks₃, hlinks₂, hlinks₁, hlast]
      exact circle_insert h.closed h.nodup hn hc
    obtain ⟨t₄, hrun₄, hcycle, hsame₄⟩ :=
      alter_head_spec hcircle (hring₃.trans (hring₂.trans (hring₁.trans hr))) hd
    refine ⟨t₄, ?_, hcycle, ((hsame₁.trans hsame₂).trans hsame₃).trans hsame₄⟩
    simp only [Arena.attach, Step.on_bind, Step.on_ask, hfetch, hb, if_neg hnot, hlink, hrun₁,
      hrun₂, hrun₃, hrun₄]

/-- A right count stays right when a member is put in front: no ring is too long for it. -/
theorem IsCycle.toNat_succ (h : t.IsCycle x d (c :: cs) m) (hcount : n.toNat = cs.length) :
    (n + 1).toNat = (c :: cs).length := by
  have hfit := length_lt_of_nodup h.nodup fun b hb => ne_empty_of_circle h.closed hb
  rw [List.length_cons] at hfit
  rw [UInt32.toNat_add, hcount, List.length_cons]
  exact Nat.mod_eq_of_lt hfit

theorem attach_spec (h : t.IsRing x d cs) (hc : (t.linksOf x d c).isSome) (hn : c ∉ cs) :
    ∃ t', (attach c x d).on t = (.ok (), t') ∧ t'.IsRing x d (c :: cs) ∧ SameBut t t' x d := by
  obtain ⟨n, hcycle, hcount⟩ := isRing_iff.1 h
  obtain ⟨t', hrun, hcycle', hsame⟩ := hcycle.attach hc hn
  exact ⟨t', hrun, isRing_iff.2 ⟨_, hcycle', hcycle'.toNat_succ hcount⟩, hsame⟩

/-! ## Detaching -/

/-- One member less, or none if there was none. -/
def oneLess (n : UInt32) : UInt32 := if n = 0 then 0 else n - 1

theorem toNat_oneLess {k : Nat} (h : n.toNat = k + 1) : (oneLess n).toNat = k := by
  have h0 : n ≠ 0 := by
    intro h0
    rw [h0] at h
    simp at h
  have hle : (1 : UInt32) ≤ n := by
    rw [UInt32.le_iff_toNat_le, h]
    simp
  rw [oneLess, if_neg h0, UInt32.toNat_sub_of_le _ _ hle, h]
  simp

/-- The owner of a ring takes note of a member that has left. -/
theorem alter_count_spec (heir : Address) (hr : t.ring? x d = some r) :
    ∃ t', (alter x fun e =>
        let r := e.ring d
        e.setRing ⟨if r.first = c then heir else r.first, if r.count = 0 then 0 else r.count - 1⟩
          d).on t = (.ok (), t') ∧ t'.linksOf x d = t.linksOf x d ∧ SameBut t t' x d ∧
      t'.ring? x d = some ⟨if r.first = c then heir else r.first, oneLess r.count⟩ := by
  obtain ⟨e, he, rfl⟩ := Option.map_eq_some_iff.1 hr
  obtain ⟨t', hrun, hlinks, hring, hsame⟩ := alter_ring_spec (d := d) (fun e =>
    let r := e.ring d
    ⟨if r.first = c then heir else r.first, if r.count = 0 then 0 else r.count - 1⟩) he
  exact ⟨t', hrun, hlinks, hsame, hring⟩

/-- Where a ring without `c` begins. -/
theorem headD_without {as bs : List Address} (hn : c ∉ as) :
    (if (as ++ c :: bs).headD .empty = c then (bs ++ as).headD .empty
      else (as ++ c :: bs).headD .empty) = (as ++ bs).headD .empty := by
  cases as with
  | nil => simp
  | cons a as =>
    have hac : a ≠ c := fun e => hn (e ▸ List.mem_cons_self)
    simp [hac]

/-- The links of a connector's neighbours close the gap that it leaves. -/
theorem unlink_spec (h : (t.linksOf x d).Circle (c :: cs)) (hd : (c :: cs).Nodup) :
    ∃ l t', t.linkOf c x d = .ok l ∧ (if l.next = c then .empty else l.next) = cs.headD .empty ∧
      (∀ f : Element → Element, (do
        if l.next ≠ c then
          relink l.prev x d fun k => { k with next := l.next }
          relink l.next x d fun k => { k with prev := l.prev }
        relink c x d fun _ => {}
        alter x f).on t = (alter x f).on t') ∧
      (t'.linksOf x d).Circle cs ∧ t'.ring? x d = t.ring? x d ∧ SameBut t t' x d := by
  have hsome := fun b (hb : b ∈ c :: cs) => isSome_of_circle (c := b) h hb
  cases cs with
  | nil =>
    have hl := circle_singleton.1 h
    obtain ⟨t₁, hrun₁, -, hring₁, hsame₁⟩ :=
      relink_spec (fun _ => {}) (hsome c List.mem_cons_self)
    refine ⟨.alone c, t₁, linkOf_of_links hl, by simp [RingLink.alone], fun f => ?_, circle_nil,
      hring₁, hsame₁⟩
    simp [RingLink.alone, Step.on_bind, hrun₁]
  | cons b cs =>
    have hl := link_of_circle_cons h
    obtain ⟨hn, -⟩ := List.nodup_cons.1 hd
    have hbc : b ≠ c := fun e => hn (e ▸ List.mem_cons_self)
    have hlast := List.getLast_mem (List.cons_ne_nil b cs)
    have hremoved := circle_remove h hd
    -- only that `p` is the predecessor of `c` matters from here on; it may be `b`
    generalize (b :: cs).getLast (List.cons_ne_nil b cs) = p at hl hlast hremoved
    obtain ⟨t₁, hrun₁, hlinks₁, hring₁, hsame₁⟩ := relink_spec (t := t) (x := x) (d := d) (c := p)
      ({ · with next := b }) (hsome p (List.mem_cons_of_mem c hlast))
    obtain ⟨t₂, hrun₂, hlinks₂, hring₂, hsame₂⟩ := relink_spec (t := t₁) (x := x) (d := d) (c := b)
      ({ · with prev := p }) (by
        rw [hlinks₁, isSome_modify]
        exact hsome b (List.mem_cons_of_mem c List.mem_cons_self))
    obtain ⟨t₃, hrun₃, hlinks₃, hring₃, hsame₃⟩ := relink_spec (t := t₂) (x := x) (d := d) (c := c)
      (fun _ => {}) (by
        rw [hlinks₂, isSome_modify, hlinks₁, isSome_modify]
        exact hsome c List.mem_cons_self)
    refine ⟨⟨p, b⟩, t₃, linkOf_of_links hl, by simp [hbc], fun f => ?_, ?_,
      hring₃.trans (hring₂.trans hring₁), (hsame₁.trans hsame₂).trans hsame₃⟩
    · simp [hbc, Step.on_bind, hrun₁, hrun₂, hrun₃]
    · rw [hlinks₃, hlinks₂, hlinks₁]
      exact hremoved

/-- Detaching a connector from a ring takes it out of the list. -/
theorem IsCycle.detach (h : t.IsCycle x d cs n) (hc : c ∈ cs) :
    ∃ t', (detach c x d).on t = (.ok (), t') ∧ t'.IsCycle x d (cs.erase c) (oneLess n) ∧
      SameBut t t' x d := by
  -- seen from `c` the circle goes on with `bs`, and then with `as`
  obtain ⟨as, bs, rfl⟩ := List.append_of_mem hc
  have hrot : (as ++ c :: bs) ~r (c :: (bs ++ as)) := List.isRotated_append
  have hd : (c :: (bs ++ as)).Nodup := hrot.nodup_iff.1 h.nodup
  have hn : c ∉ as := fun hmem => (List.nodup_cons.1 hd).1 (List.mem_append_right _ hmem)
  have herase : (as ++ c :: bs).erase c = as ++ bs := by
    rw [List.erase_append_right _ hn, List.erase_cons_head]
  obtain ⟨l, t₁, hl, hheir, hrun₁, hcirc₁, hring₁, hsame₁⟩ :=
    unlink_spec ((circle_of_isRotated hrot).1 h.closed) hd
  obtain ⟨t₂, hrun₂, hlinks₂, hsame₂, hring₂⟩ :=
    alter_count_spec (c := c) ((bs ++ as).headD .empty) (hring₁.trans h.head)
  refine ⟨t₂, ?_, ⟨h.nodup.erase c, ?_, ?_⟩, hsame₁.trans hsame₂⟩
  · rw [Arena.detach, Step.on_bind, Step.on_ask, hl]
    simp only [hheir]
    exact (hrun₁ _).trans hrun₂
  · rw [hring₂, herase]
    dsimp only
    rw [headD_without hn]
  · rw [hlinks₂, herase]
    exact (circle_of_isRotated List.isRotated_append).1 hcirc₁

theorem toNat_oneLess_erase (hc : c ∈ cs) (hcount : n.toNat = cs.length) :
    (oneLess n).toNat = (cs.erase c).length := by
  have hpos := List.length_pos_of_mem hc
  rw [List.length_erase_of_mem hc]
  exact toNat_oneLess (by omega)

theorem detach_spec (h : t.IsRing x d cs) (hc : c ∈ cs) :
    ∃ t', (detach c x d).on t = (.ok (), t') ∧ t'.IsRing x d (cs.erase c) ∧ SameBut t t' x d := by
  obtain ⟨n, hcycle, hcount⟩ := isRing_iff.1 h
  obtain ⟨t', hrun, hcycle', hsame⟩ := hcycle.detach hc
  exact ⟨t', hrun, isRing_iff.2 ⟨_, hcycle', toNat_oneLess_erase hc hcount⟩, hsame⟩

/-! ## The list of a ring -/

/-- Walking on from a member lists the members from there to the last one. -/
theorem membersFrom_spec (h : (c :: cs).IsChain (t.linksOf x d).Joined)
    (hclose : (t.linksOf x d ((c :: cs).getLast (List.cons_ne_nil c cs))).map (·.next) = some y)
    (hy : y ∉ cs) : t.membersFrom x d y (cs.length + 1) c = .ok (c :: cs) := by
  induction cs generalizing c with
  | nil =>
    obtain ⟨l, hl, rfl⟩ := Option.map_eq_some_iff.1 hclose
    have hlink : t.linkOf c x d = .ok l := linkOf_of_links hl
    simp [membersFrom, hlink, bind, Except.bind, pure, Except.pure]
  | cons b cs ih =>
    obtain ⟨hjoin, hrest⟩ := List.isChain_cons_cons.1 h
    obtain ⟨l, hl, rfl⟩ := Option.map_eq_some_iff.1 hjoin.1
    have hlink : t.linkOf c x d = .ok l := linkOf_of_links hl
    have hne : l.next ≠ y := fun e => hy (e ▸ List.mem_cons_self)
    rw [List.getLast_cons (List.cons_ne_nil _ _)] at hclose
    have hmore := ih hrest hclose fun hmem => hy (List.mem_cons_of_mem _ hmem)
    rw [List.length_cons, membersFrom]
    simp only [hlink, bind, Except.bind, pure, Except.pure, if_neg hne, hmore]

/-- Walking a ring lists it. -/
theorem IsRing.members_eq (h : t.IsRing x d cs) : t.members x d = .ok cs := by
  obtain ⟨r, hr, hfirst, hcount⟩ := h.head
  obtain ⟨e, he, rfl⟩ := Option.map_eq_some_iff.1 hr
  have hfetch : t.fetch x = .ok e := by rw [fetch, he]
  rw [members, hfetch]
  cases cs with
  | nil =>
    have hempty : (e.ring d).first.isEmpty = true := Address.isEmpty_iff.2 hfirst
    simp [bind, Except.bind, pure, Except.pure, hempty]
  | cons c cs =>
    have hc : (e.ring d).first = c := hfirst
    have hnot : ¬c.isEmpty = true :=
      fun he => h.ne_empty List.mem_cons_self (Address.isEmpty_iff.1 he)
    obtain ⟨hchain, hclose⟩ := circle_cons.1 h.closed
    simp only [bind, Except.bind, hc, if_neg hnot, hcount, List.length_cons]
    exact membersFrom_spec hchain hclose.1 (List.nodup_cons.1 h.nodup).1

/-- A ring is one list only. -/
theorem IsRing.unique {cs' : List Address} (h : t.IsRing x d cs) (h' : t.IsRing x d cs') :
    cs = cs' :=
  Except.ok.inj (h.members_eq.symm.trans h'.members_eq)

/-! ## Splices -/

/-- The ring of `x` that was the list `cs` is the list `cs'` in `t'`, a right count of it is right
again, and all other rings are as they were. -/
structure RingBecomes (t t' : Arena) (x : Address) (d : Direction) (cs cs' : List Address)
    (n n' : UInt32) : Prop where
  cycle : t'.IsCycle x d cs' n'
  counted : n.toNat = cs.length → n'.toNat = cs'.length
  others : ∀ y d' ds m, ¬(y = x ∧ d' = d) → (t'.IsCycle y d' ds m ↔ t.IsCycle y d' ds m)
  sameBut : SameBut t t' x d

theorem IsCycle.becomes {cs' : List Address} (h : t'.IsCycle x d cs' m) (hsame : SameBut t t' x d)
    (hcount : n.toNat = cs.length → m.toNat = cs'.length) :
    t.RingBecomes t' x d cs cs' n m :=
  ⟨h, hcount, fun _ _ _ _ hy => ⟨.of_sameBut hsame.symm hy, .of_sameBut hsame hy⟩, hsame⟩

/-- Whatever else is in the arena, and whichever of the connectors coincide, a ring is spliced as a
list is: a connector of the ring that is not in it comes in front, and a member is taken out of its
place. The head changes in the second case only if it is the member. -/
theorem IsCycle.splices (h : t.IsCycle x d cs n) :
    (∀ c e, t.find? c = some e → (e.role? x d).isSome → c ∉ cs →
      ∃ t', (Arena.attach c x d).on t = (.ok (), t') ∧
        t.RingBecomes t' x d cs (c :: cs) n (n + 1)) ∧
    ∀ c ∈ cs, ∃ t', (Arena.detach c x d).on t = (.ok (), t') ∧
      t.RingBecomes t' x d cs (cs.erase c) n (oneLess n) ∧
      (cs.head? ≠ some c → (t'.ring? x d).map (·.first) = (t.ring? x d).map (·.first)) := by
  constructor
  · intro c e he hrole hn
    have hlink : (t.linksOf x d c).isSome := by
      rw [linksOf, he, Option.bind_some, Element.link?_isSome_iff, ← Element.role?_isSome_iff]
      exact hrole
    obtain ⟨t', hrun, hcycle, hsame⟩ := h.attach hlink hn
    exact ⟨t', hrun, hcycle.becomes hsame hcycle.toNat_succ⟩
  · intro c hc
    obtain ⟨t', hrun, hcycle, hsame⟩ := h.detach hc
    refine ⟨t', hrun, hcycle.becomes hsame (toNat_oneLess_erase hc), fun hhead => ?_⟩
    rw [hcycle.head, h.head]
    cases cs with
    | nil => rfl
    | cons b cs =>
      have hbc : b ≠ c := fun heq => hhead (congrArg some heq)
      simp [hbc]

/-- A node with an arc from it to itself, and two arcs that begin at that arc: one from the arc to
itself, which sits in the rings of the arc, and one to the node, which sits in none yet. -/
def nestedArena : Arena :=
  let arc (source target : Address) : Slot :=
    .live { type := .commonArc, access := .lowest, connection := some { source, target } }
  let laid : Arena := {
    maxSegments := 1
    capacity := 4
    segments := #[{
      slots := #[.live { type := .node, access := .lowest }, arc ⟨1, 1⟩ ⟨1, 1⟩, arc ⟨1, 2⟩ ⟨1, 2⟩,
        arc ⟨1, 2⟩ ⟨1, 1⟩]
      live := 4 }] }
  let threaded : Step Arena Unit := do
    Arena.attach ⟨1, 2⟩ ⟨1, 1⟩ .outgoing
    Arena.attach ⟨1, 2⟩ ⟨1, 1⟩ .incoming
    Arena.attach ⟨1, 3⟩ ⟨1, 2⟩ .outgoing
    Arena.attach ⟨1, 3⟩ ⟨1, 2⟩ .incoming
  (threaded.on laid).2

theorem IsCycle.splices_nestedArena : nestedArena.IsCycle ⟨1, 2⟩ .outgoing [⟨1, 3⟩] 1 ∧
    (∃ t', (Arena.attach ⟨1, 4⟩ ⟨1, 2⟩ .outgoing).on nestedArena = (.ok (), t') ∧
      nestedArena.RingBecomes t' ⟨1, 2⟩ .outgoing [⟨1, 3⟩] [⟨1, 4⟩, ⟨1, 3⟩] 1 2) ∧
    ∃ t', (Arena.detach ⟨1, 3⟩ ⟨1, 2⟩ .outgoing).on nestedArena = (.ok (), t') ∧
      nestedArena.RingBecomes t' ⟨1, 2⟩ .outgoing [⟨1, 3⟩] [] 1 0 := by
  have h : nestedArena.IsCycle ⟨1, 2⟩ .outgoing [⟨1, 3⟩] 1 :=
    ⟨by decide, by decide +kernel, circle_singleton.2 (by decide +kernel)⟩
  obtain ⟨hattach, hdetach⟩ := h.splices
  obtain ⟨e, he, hrole⟩ : ∃ e, nestedArena.find? ⟨1, 4⟩ = some e ∧
      (e.role? ⟨1, 2⟩ .outgoing).isSome := ⟨_, rfl, rfl⟩
  obtain ⟨t', hrun, hbecomes, -⟩ := hdetach ⟨1, 3⟩ (by decide)
  exact ⟨h, hattach ⟨1, 4⟩ e he hrole (by decide), t', hrun, hbecomes⟩

end SemanticNet.Arena
