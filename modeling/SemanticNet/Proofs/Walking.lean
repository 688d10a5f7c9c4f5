import SemanticNet.Proofs.Runs
import SemanticNet.Walk.Quintuples

/-!
# Walks along rings

A walk over a pattern with an open connector goes along one ring of an element that the pattern
names (`Pattern.anchor?`). While nothing changes it yields what fits (`Pattern.Fits`), each
connector once and in the order of the ring, and then stays at its end (`Triples.Yields`).
-/

namespace SemanticNet

/-! ## Steps along a ring -/

namespace Arena

variable {t : Arena} {x c : Address} {d : Direction} {as bs cs : List Address} {l : RingLink}
  {r : RingHead}

theorem next?_of_links (hl : t.linksOf x d c = some l) (hr : t.ring? x d = some r) :
    t.next? c x d = if l.next.isEmpty || l.next = r.first then none else some l.next := by
  obtain ⟨e, he, hle⟩ := Option.bind_eq_some_iff.1 hl
  obtain ⟨e', he', rfl⟩ := Option.map_eq_some_iff.1 hr
  simp [next?, he, hle, he']

/-- After a member of a ring comes the one behind it in the list, and nothing after the last. -/
theorem IsRing.next?_eq (h : t.IsRing x d (as ++ c :: bs)) : t.next? c x d = bs.head? := by
  obtain ⟨r, hr, hfirst, -⟩ := h.head
  have hcircle := (Links.circle_of_isRotated List.isRotated_append).1 h.closed
  have hd := h.nodup
  have hlive : ∀ b, b ∈ as ++ c :: bs → b.isEmpty = false := fun b hb => by
    rw [← Bool.not_eq_true, Address.isEmpty_iff]
    exact h.ne_empty hb
  cases bs with
  | cons b bs =>
    have hbr : b ≠ r.first := by
      rw [hfirst]
      cases as with
      | nil =>
        rintro rfl
        simp at hd
      | cons a as =>
        rintro rfl
        simp at hd
    have hl := Links.link_of_circle_cons hcircle
    rw [next?_of_links hl hr]
    simp [hlive b (by simp), hbr]
  | nil =>
    cases as with
    | nil =>
      have hl := Links.circle_singleton.1 hcircle
      rw [next?_of_links hl hr]
      simp [RingLink.alone, hfirst]
    | cons a as =>
      have hl := Links.link_of_circle_cons hcircle
      rw [next?_of_links hl hr]
      simp [hfirst]

/-- The members of a ring are elements of their own. -/
theorem IsRing.length_le_engaged (h : t.IsRing x d cs) (ht : t.Tidy) : cs.length ≤ t.engaged :=
  ht.length_le_engaged h.nodup fun _ hc => by
    obtain ⟨e, he⟩ := h.mem_live hc
    exact Option.isSome_of_eq_some he

end Arena

/-! ## What fits -/

theorem Arena.type_of_readable? {t : Arena} {levels : Access} {a : Address} {e : Element}
    {type : ElementType} (he : t.find? a = some e) (h : t.readable? levels a = some type) :
    e.type = type := by
  rw [readable?, he] at h
  exact Option.some.inj (Option.ite_none_right_eq_some.1 h).2

/-- The connector `e` goes from `source` to `target`, or it is a common edge that goes the other way
round. -/
def Element.Joins (e : Element) (source target : Address) : Prop :=
  ∃ k, e.connection = some k ∧ ((k.source, k.target) = (source, target) ∨
    e.type.isCommonEdge = true ∧ (k.target, k.source) = (source, target))

/-- The element at `a` may be read with the given levels, and it is what the term names, or its type
has all the bits that the term asks for. -/
def Term.Fits (m : Term) (t : Arena) (levels : Access) (a : Address) : Prop :=
  ∃ type, t.readable? levels a = some type ∧ m.accepts a type = true

/-- A triple of the arena that the pattern asks for. -/
structure Pattern.Fits (p : Pattern) (t : Arena) (levels : Access) (τ : Triple) : Prop where
  joins : ∃ e, t.find? τ.connector = some e ∧ e.Joins τ.source τ.target
  source : p.source.Fits t levels τ.source
  connector : p.connector.Fits t levels τ.connector
  target : p.target.Fits t levels τ.target

instance (e : Element) (source target : Address) : Decidable (e.Joins source target) :=
  decidable_of_iff (∃ k ∈ e.connection, (k.source, k.target) = (source, target) ∨
    e.type.isCommonEdge = true ∧ (k.target, k.source) = (source, target)) Iff.rfl

instance (m : Term) (t : Arena) (levels : Access) (a : Address) : Decidable (m.Fits t levels a) :=
  decidable_of_iff (∃ type ∈ t.readable? levels a, m.accepts a type = true) Iff.rfl

instance (p : Pattern) (t : Arena) (levels : Access) (τ : Triple) :
    Decidable (p.Fits t levels τ) :=
  decidable_of_iff ((∃ e ∈ t.find? τ.connector, e.Joins τ.source τ.target) ∧
      p.source.Fits t levels τ.source ∧ p.connector.Fits t levels τ.connector ∧
      p.target.Fits t levels τ.target)
    ⟨fun ⟨joins, source, connector, target⟩ => ⟨joins, source, connector, target⟩,
      fun h => ⟨h.joins, h.source, h.connector, h.target⟩⟩

/-- The ring that a walk over the pattern goes along, if its connector is open. -/
def Pattern.anchor? (p : Pattern) : Option (Address × Direction) :=
  match p.connector, p.source, p.target with
  | .any _, .fixed x, _ => some (x, .outgoing)
  | .any _, .any _, .fixed x => some (x, .incoming)
  | _, _, _ => none

/-- The walks along rings are those of three shapes. -/
theorem Pattern.isSome_anchor?_iff {p : Pattern} : p.anchor?.isSome ↔
    p.shape? = some .fixedAnyAny ∨ p.shape? = some .anyAnyFixed ∨
      p.shape? = some .fixedAnyFixed := by
  obtain ⟨source, connector, target⟩ := p
  cases source <;> cases connector <;> cases target <;> simp [anchor?, shape?]

/-- A named connector leaves no ring to walk along, and otherwise it is the ring of a named end. -/
theorem Pattern.named_of_anchor? {p : Pattern} {x : Address} {d : Direction}
    (h : p.anchor? = some (x, d)) :
    d = .outgoing ∧ p.source = .fixed x ∨ d = .incoming ∧ p.target = .fixed x := by
  obtain ⟨source, connector, target⟩ := p
  cases source <;> cases connector <;> cases target <;> simp_all [anchor?]

/-- The triple of the member `c` of a ring of `x` that has `y` across from `x`. -/
def Triple.along (x c y : Address) : Direction → Triple
  | .outgoing => ⟨x, c, y⟩
  | .incoming => ⟨y, c, x⟩

@[simp] theorem Triple.connector_along {x c y : Address} {d : Direction} :
    (along x c y d).connector = c := by
  cases d <;> rfl

/-- An element sits in a ring of `x` with `y` across from it just when it joins the two. -/
theorem Element.joins_along_iff {e : Element} {x c y : Address} {d : Direction} :
    e.Joins (Triple.along x c y d).source (Triple.along x c y d).target ↔
      (x, d) ∈ e.places ∧ ∃ k, e.connection = some k ∧ k.opposite? x = some y := by
  cases hk : e.connection with
  | none => cases d <;> simp [Joins, hk]
  | some k =>
    rw [← plays_iff]
    cases d <;>
      simp only [Plays, Joins, hk, Option.some.injEq, exists_eq_left', Connection.opposite?,
        Prod.mk.injEq, Triple.along] <;> grind

namespace Triples

variable {w w' : Triples} {t : Arena} {p : Pattern} {levels : Access} {x y c : Address}
  {d : Direction} {τ : Triple} {as bs cs : List Address} {τs τs' : List Triple} {n : Nat}

/-! ## Members that fit -/

/-- The term for the elements across from the owner of the ring. -/
def across (w : Triples) : Direction → Term
  | .outgoing => w.pattern.target
  | .incoming => w.pattern.source

/-- The triple of a member of a ring, if it fits. -/
def triple? (w : Triples) (t : Arena) (x : Address) (d : Direction) (c : Address) :
    Option Triple :=
  (w.match? t x c d).map fun y => .along x c y d

theorem match?_eq_some_iff : w.match? t x c d = some y ↔
    (∃ e, t.find? c = some e ∧ ∃ k, e.connection = some k ∧ k.opposite? x = some y) ∧
      w.pattern.connector.Fits t w.levels c ∧ (w.across d).Fits t w.levels y := by
  have hunfold : w.match? t x c d = (t.readable? w.levels c).bind fun type =>
      (t.find? c).bind fun e => e.connection.bind fun k => (k.opposite? x).bind fun other =>
        if w.pattern.connector.accepts c type then
          (t.readable? w.levels other).bind fun type' =>
            if (w.across d).accepts other type' then some other else none
        else none := by
    simp only [match?, Option.bind_eq_bind]
    refine Option.bind_congr fun type _ => Option.bind_congr fun e _ =>
      Option.bind_congr fun k _ => Option.bind_congr fun other _ => ?_
    cases w.pattern.connector.accepts c type <;> cases d <;> rfl
  simp only [hunfold, Option.bind_eq_some_iff, Option.ite_none_right_eq_some, Option.some.injEq,
    Term.Fits]
  constructor
  · rintro ⟨type, htype, e, he, k, hk, other, hother, haccepts, type', htype', haccepts', rfl⟩
    exact ⟨⟨e, he, k, hk, hother⟩, ⟨type, htype, haccepts⟩, type', htype', haccepts'⟩
  · rintro ⟨⟨e, he, k, hk, hother⟩, ⟨type, htype, haccepts⟩, type', htype', haccepts'⟩
    exact ⟨type, htype, e, he, k, hk, y, hother, haccepts, type', htype', haccepts', rfl⟩

/-- What a pattern asks for, seen from the element that it names. -/
theorem fits_along_iff (ha : w.pattern.anchor? = some (x, d))
    (hx : (t.readable? w.levels x).isSome) :
    w.pattern.Fits t w.levels (.along x c y d) ↔
      t.Incident x d c ∧ w.triple? t x d c = some (.along x c y d) := by
  have hself : Term.Fits (.fixed x) t w.levels x := by
    obtain ⟨type, htype⟩ := Option.isSome_iff_exists.1 hx
    exact ⟨type, htype, by simp [Term.accepts]⟩
  have hinj : w.triple? t x d c = some (.along x c y d) ↔ w.match? t x c d = some y := by
    cases d <;> simp [triple?, Triple.along]
  rw [hinj, match?_eq_some_iff]
  constructor
  · intro h
    obtain ⟨e, he, hjoins⟩ := h.joins
    rw [Triple.connector_along] at he
    obtain ⟨hplace, hacross⟩ := Element.joins_along_iff.1 hjoins
    refine ⟨⟨e, he, hplace⟩, ⟨e, he, hacross⟩, by simpa using h.connector, ?_⟩
    cases d with
    | outgoing => exact h.target
    | incoming => exact h.source
  · rintro ⟨⟨e, he, hplace⟩, ⟨e', he', hacross⟩, hconnector, hother⟩
    obtain rfl := Option.some.inj (he.symm.trans he')
    refine ⟨⟨e, by simpa using he, Element.joins_along_iff.2 ⟨hplace, hacross⟩⟩, ?_,
      by simpa using hconnector, ?_⟩
    · rcases Pattern.named_of_anchor? ha with ⟨rfl, hsource⟩ | ⟨rfl, -⟩
      · rw [hsource]
        exact hself
      · exact hother
    · rcases Pattern.named_of_anchor? ha with ⟨rfl, -⟩ | ⟨rfl, htarget⟩
      · exact hother
      · rw [htarget]
        exact hself

/-- Every triple that a pattern asks for is one along the ring of the element that it names. -/
theorem eq_along_of_fits (ha : w.pattern.anchor? = some (x, d))
    (h : w.pattern.Fits t w.levels τ) : ∃ y, τ = .along x τ.connector y d := by
  have hnamed : ∀ {a b}, Term.Fits (.fixed a) t w.levels b → a = b := by
    rintro a b ⟨type, -, haccepts⟩
    simpa [Term.accepts] using haccepts
  rcases Pattern.named_of_anchor? ha with ⟨rfl, hsource⟩ | ⟨rfl, htarget⟩
  · obtain rfl := hnamed (hsource ▸ h.source)
    exact ⟨τ.target, rfl⟩
  · obtain rfl := hnamed (htarget ▸ h.target)
    exact ⟨τ.source, rfl⟩

/-- The triples of the connectors that belong in the ring are those that the pattern asks for. -/
theorem mem_filterMap_iff (ha : w.pattern.anchor? = some (x, d))
    (hx : (t.readable? w.levels x).isSome) (hcs : ∀ c, c ∈ cs ↔ t.Incident x d c) :
    τ ∈ cs.filterMap (w.triple? t x d) ↔ w.pattern.Fits t w.levels τ := by
  rw [List.mem_filterMap]
  constructor
  · rintro ⟨c, hc, hτ⟩
    obtain ⟨y, -, rfl⟩ := Option.map_eq_some_iff.1 hτ
    exact (fits_along_iff ha hx).2 ⟨(hcs c).1 hc, hτ⟩
  · intro h
    obtain ⟨y, hy⟩ := eq_along_of_fits ha h
    rw [hy] at h ⊢
    obtain ⟨hinc, hτ⟩ := (fits_along_iff ha hx).1 h
    exact ⟨_, (hcs _).2 hinc, hτ⟩

/-! ## One move -/

/-- A search with enough fuel finds the first member from `c` on that fits. -/
theorem search_eq (h : t.IsRing x d (as ++ c :: bs)) (hn : bs.length < n) :
    (w.search t x d n c).1
      = (c :: bs).findSome? fun c => (w.match? t x c d).map fun y => (c, y) := by
  induction n generalizing as c bs with
  | zero => omega
  | succ n ih =>
    rw [search, List.findSome?_cons, h.next?_eq]
    cases w.match? t x c d with
    | some y => rfl
    | none =>
      cases bs with
      | nil => rfl
      | cons b bs =>
        have hrest : t.IsRing x d ((as ++ [c]) ++ b :: bs) := by simpa using h
        have hlen : bs.length < n := by
          rw [List.length_cons] at hn
          omega
        exact ih hrest hlen

theorem advance_eq (ha : w.pattern.anchor? = some (x, d)) (hd : w.isDone = false) :
    w.advance t = w.advanceInRing t x d := by
  obtain ⟨⟨source, connector, target⟩, levels, cursor, current⟩ := w
  cases connector with
  | fixed c => simp [Pattern.anchor?] at ha
  | any m =>
    cases source with
    | fixed y =>
      obtain ⟨rfl, rfl⟩ : y = x ∧ Direction.outgoing = d := by simpa [Pattern.anchor?] using ha
      simp [advance, hd]
    | any k =>
      cases target with
      | fixed y =>
        obtain ⟨rfl, rfl⟩ : y = x ∧ Direction.incoming = d := by simpa [Pattern.anchor?] using ha
        simp [advance, hd]
      | any l => simp [Pattern.anchor?] at ha

/-- When nothing fits from where the walk goes on, it ends. -/
theorem advanceInRing_of_none (h : t.IsRing x d (as ++ bs)) (hlen : (as ++ bs).length ≤ t.engaged)
    (hr : w.resume? t x d = bs.head?) (hbs : ∀ c ∈ bs, w.triple? t x d c = none) :
    (w.advanceInRing t x d).1 = w.finish := by
  cases bs with
  | nil => simp [advanceInRing, hr]
  | cons c bs =>
    have hfuel : bs.length < t.engaged + 1 := by
      simp only [List.length_append, List.length_cons] at hlen
      omega
    have hsearch := search_eq (w := w) h hfuel
    rw [List.findSome?_eq_none_iff.2] at hsearch
    · simp only [advanceInRing, hr, List.head?_cons]
      generalize w.search t x d (t.engaged + 1) c = found at hsearch
      obtain ⟨found, scans⟩ := found
      subst hsearch
      rfl
    · intro b hb
      have := hbs b hb
      rw [triple?, Option.map_eq_none_iff] at this
      rw [this, Option.map_none]

/-- Otherwise the walk comes to the first member that fits. -/
theorem advanceInRing_of_some (h : t.IsRing x d (as ++ (bs ++ c :: cs)))
    (hlen : (as ++ (bs ++ c :: cs)).length ≤ t.engaged)
    (hr : w.resume? t x d = (bs ++ c :: cs).head?) (hbs : ∀ b ∈ bs, w.triple? t x d b = none)
    (hc : w.triple? t x d c = some τ) :
    (w.advanceInRing t x d).1 = { w with cursor := .at c, current := τ } := by
  obtain ⟨y, hy, rfl⟩ := Option.map_eq_some_iff.1 hc
  obtain ⟨b, rest, hrest⟩ : ∃ b rest, bs ++ c :: cs = b :: rest :=
    List.exists_cons_of_ne_nil (by simp)
  have hfuel : rest.length < t.engaged + 1 := by
    rw [hrest] at hlen
    simp only [List.length_append, List.length_cons] at hlen
    omega
  have hsearch := search_eq (w := w) (hrest ▸ h) hfuel
  have hfirst : (b :: rest).findSome? (fun c => (w.match? t x c d).map fun y => (c, y))
      = some (c, y) := by
    rw [← hrest, List.findSome?_append, List.findSome?_eq_none_iff.2, Option.none_or,
      List.findSome?_cons, hy]
    · rfl
    · intro b hb
      have := hbs b hb
      rw [triple?, Option.map_eq_none_iff] at this
      rw [this, Option.map_none]
  rw [hfirst] at hsearch
  simp only [advanceInRing, hr, hrest, List.head?_cons]
  generalize w.search t x d (t.engaged + 1) b = found at hsearch
  obtain ⟨found, scans⟩ := found
  subst hsearch
  cases d <;> rfl

/-! ## Whole walks -/

/-- The walk after some moves. -/
def moved (t : Arena) : Nat → Triples → Triples
  | 0, w => w
  | n + 1, w => moved t n (w.advance t).1

/-- While the arena stays as it is, the walk comes to these triples one after the other; then it is
at its end and stays there, with nothing for its current triple. -/
structure Yields (t : Arena) (w : Triples) (τs : List Triple) : Prop where
  goes : ∀ n τ, τs[n]? = some τ →
    (moved t (n + 1) w).isDone = false ∧ (moved t (n + 1) w).current = τ
  ends : ∀ n, τs.length < n → moved t n w = w.finish

theorem moved_finish : moved t n w.finish = w.finish := by
  induction n with
  | zero => rfl
  | succ n ih => exact ih

theorem yields_nil (h : (w.advance t).1 = w.finish) : w.Yields t [] where
  goes n τ hn := by simp at hn
  ends n hn := by
    obtain ⟨m, rfl⟩ := Nat.exists_eq_succ_of_ne_zero (Nat.ne_of_gt hn)
    rw [Nat.succ_eq_add_one, moved, h, moved_finish]

theorem Yields.cons (h : w'.Yields t τs) (hmove : (w.advance t).1 = w') (hd : w'.isDone = false)
    (hfinish : w'.finish = w.finish) : w.Yields t (w'.current :: τs) where
  goes n τ hn := by
    rw [moved, hmove]
    cases n with
    | zero =>
      obtain rfl := Option.some.inj hn
      exact ⟨hd, rfl⟩
    | succ n => exact h.goes n τ hn
  ends n hn := by
    cases n with
    | zero => simp at hn
    | succ n =>
      rw [moved, hmove, ← hfinish]
      exact h.ends n (by simpa using hn)

/-- A walk that has come to the member `c` of a ring goes on with the members behind it. -/
theorem resume?_at (hc : w.cursor = .at c) (h : t.IsRing x d (as ++ c :: bs)) :
    w.resume? t x d = bs.head? := by
  rw [resume?, hc]
  exact h.next?_eq

/-- A walk that is to go on with the members `bs` of a ring yields those that fit. -/
theorem yields_of_resume (ha : w.pattern.anchor? = some (x, d)) (hd : w.isDone = false)
    (h : t.IsRing x d (as ++ bs)) (hlen : (as ++ bs).length ≤ t.engaged)
    (hr : w.resume? t x d = bs.head?) : w.Yields t (bs.filterMap (w.triple? t x d)) := by
  generalize hτs : bs.filterMap (w.triple? t x d) = τs
  induction τs generalizing w as bs with
  | nil =>
    refine yields_nil ?_
    rw [advance_eq ha hd]
    exact advanceInRing_of_none h hlen hr (List.filterMap_eq_nil_iff.1 hτs)
  | cons τ τs ih =>
    obtain ⟨ds, c, cs, rfl, hds, hc, hcs⟩ := List.filterMap_eq_cons_iff.1 hτs
    have hmove : (w.advance t).1 = { w with cursor := .at c, current := τ } := by
      rw [advance_eq ha hd]
      exact advanceInRing_of_some h hlen hr hds hc
    -- from `c` the walk goes on behind it
    have hring : t.IsRing x d ((as ++ ds ++ [c]) ++ cs) := by simpa using h
    have hsplit : t.IsRing x d ((as ++ ds) ++ c :: cs) := by simpa using h
    refine (ih (w := { w with cursor := .at c, current := τ }) ha rfl hring ?_
      (resume?_at rfl hsplit) hcs).cons hmove rfl rfl
    simpa using hlen

/-- No move changes what the walk is over. -/
theorem finish_advance : (w.advance t).1.finish = w.finish := by
  have hring : ∀ x d, (w.advanceInRing t x d).1.finish = w.finish := by
    intro x d
    rw [advanceInRing]
    split
    · rfl
    · split <;> rfl
  rw [advance]
  split
  · rfl
  split
  · rw [advanceAt]
    split
    · split <;> rfl
    · rfl
  · exact hring _ _
  · exact hring _ _
  · rfl

/-- With nothing left the next move ends the walk. -/
theorem Yields.advance_nil (h : w.Yields t []) : (w.advance t).1.isDone = true := by
  have hend : (w.advance t).1 = w.finish := h.ends 1 Nat.zero_lt_one
  rw [hend]
  rfl

/-- The next move comes to the first triple that is left, and the others are left then. -/
theorem Yields.advance_cons (h : w.Yields t (τ :: τs)) :
    (w.advance t).1.isDone = false ∧ (w.advance t).1.current = τ ∧
      (w.advance t).1.Yields t τs := by
  obtain ⟨hd, hcurrent⟩ := h.goes 0 τ rfl
  refine ⟨hd, hcurrent, fun m τ' hm => h.goes (m + 1) τ' hm, fun m hm => ?_⟩
  rw [finish_advance]
  exact h.ends (m + 1) (by simpa using hm)

/-- The triples that are taken are the first ones that are left. -/
theorem Yields.take_eq (h : w.Yields t τs) (n : Nat) : (take t n w).1 = τs.take n := by
  induction n generalizing w τs with
  | zero => rfl
  | succ n ih =>
    cases τs with
    | nil => simp [take, h.advance_nil]
    | cons τ τs =>
      obtain ⟨hd, hcurrent, hrest⟩ := h.advance_cons
      simp [take, hd, ih hrest, hcurrent]

/-- A walk that has not begun goes on with the whole ring. -/
theorem resume?_start {w : Triples} (hw : w.cursor = .start) (h : t.IsRing x d cs)
    (hx : (t.readable? w.levels x).isSome) : w.resume? t x d = cs.head? := by
  obtain ⟨type, htype⟩ := Option.isSome_iff_exists.1 hx
  obtain ⟨r, hr, hfirst, -⟩ := h.head
  obtain ⟨e, he, rfl⟩ := Option.map_eq_some_iff.1 hr
  simp only [resume?, hw, htype, he, Option.bind_eq_bind, Option.bind_some, hfirst]
  cases cs with
  | nil => rfl
  | cons c cs =>
    have hne : c.isEmpty = false := by
      rw [← Bool.not_eq_true, Address.isEmpty_iff]
      exact h.ne_empty List.mem_cons_self
    simp [hne]

/-- An anchor that may not be read ends the walk at once, and nothing fits. -/
theorem not_fits_of_unreadable (ha : w.pattern.anchor? = some (x, d))
    (hx : t.readable? w.levels x = none) : ¬w.pattern.Fits t w.levels τ := by
  intro h
  obtain ⟨y, hy⟩ := eq_along_of_fits ha h
  have hself : ∃ m : Term, m.Fits t w.levels x := by
    rcases Pattern.named_of_anchor? ha with ⟨rfl, -⟩ | ⟨rfl, -⟩
    · exact ⟨_, (congrArg Triple.source hy) ▸ h.source⟩
    · exact ⟨_, (congrArg Triple.target hy) ▸ h.target⟩
  obtain ⟨m, type, htype, -⟩ := hself
  simp [hx] at htype

end Triples

namespace Store

variable {s : Store} {made : List Address} {p q : Pattern} {levels : Access} {x y : Address}
  {m n : ElementType} {τs τs' : List Triple}

/-- All triples that a walk over the pattern yields. -/
def found (s : Store) (p : Pattern) (levels : Access) : Except Failure (List Triple) :=
  ((triples p levels none).on s).1

/-- A walk of the store over the pattern can be opened, and it yields what fits: each connector
once, newest first, as in the ring of the element that the pattern names. -/
structure WalksRing (made : List Address) (s : Store) (p : Pattern) (levels : Access)
    (τs : List Triple) : Prop where
  opened : Triples.open? p levels = .ok { pattern := p, levels }
  yields : Triples.Yields s.arena { pattern := p, levels } τs
  found : s.found p levels = .ok τs
  mem_iff : ∀ τ, τ ∈ τs ↔ p.Fits s.arena levels τ
  nodup : (τs.map (·.connector)).Nodup
  newest : τs.Pairwise fun τ τ' => Arena.Newer made τ.connector τ'.connector
  ring : ∀ x d, p.anchor? = some (x, d) → s.isLive x = true →
    ∃ cs, s.arena.members x d = .ok cs ∧ (τs.map (·.connector)).Sublist cs

/-- The connectors of the triples along a ring are members of it, in its order. -/
theorem sublist_connectors {w : Triples} {t : Arena} {d : Direction} (cs : List Address) :
    ((cs.filterMap (w.triple? t x d)).map (·.connector)).Sublist cs := by
  have hconnector : (fun c => (w.triple? t x d c).map (·.connector))
      = Option.guard fun c => (w.triple? t x d c).isSome := by
    funext c
    cases hc : w.match? t x c d <;> simp [Triples.triple?, hc, Option.guard]
  rw [List.map_filterMap, hconnector, List.filterMap_eq_filter]
  exact List.filter_sublist

theorem open?_of_anchor? (hp : p.anchor?.isSome) :
    Triples.open? p levels = .ok { pattern := p, levels } := by
  rw [Triples.open?, if_pos]
  rcases Pattern.isSome_anchor?_iff.1 hp with h | h | h <;> simp [h]

theorem found_of_yields (hopen : Triples.open? p levels = .ok { pattern := p, levels })
    (h : Triples.Yields s.arena { pattern := p, levels } τs) (hlen : τs.length < s.tripleBound) :
    s.found p levels = .ok τs := by
  have htake := (h.take_eq s.tripleBound).trans (List.take_of_length_le (Nat.le_of_lt hlen))
  simp only [found, triples, hopen, Step.on_bind, Step.on_lift, Step.on_get,
    Step.on_change, Step.on_pure, Option.getD_none]
  rw [← htake]

theorem AtRest.exists_walksRing (h : s.AtRest made) (hp : p.anchor?.isSome) (levels : Access) :
    ∃ τs, s.WalksRing made p levels τs := by
  obtain ⟨⟨x, d⟩, ha⟩ := Option.isSome_iff_exists.1 hp
  let w : Triples := { pattern := p, levels }
  cases hx : (s.arena.readable? levels x).isSome with
  | false =>
    have hnone : s.arena.readable? levels x = none := by simpa using hx
    have hyields : w.Yields s.arena [] := by
      refine Triples.yields_nil ?_
      have hresume : w.resume? s.arena x d = none := by simp [w, Triples.resume?, hnone]
      rw [Triples.advance_eq ha rfl]
      simp [Triples.advanceInRing, hresume]
    have hopen : Triples.open? p levels = .ok { pattern := p, levels } := open?_of_anchor? hp
    refine ⟨[], hopen, hyields, found_of_yields hopen hyields (Nat.succ_pos _), fun τ => ?_,
      List.nodup_nil, List.Pairwise.nil, fun y d' _ hy => ?_⟩
    · simpa using Triples.not_fits_of_unreadable (w := w) ha hnone
    · obtain ⟨cs, hcs, -⟩ := h.sound.wired.ring y d' hy
      exact ⟨cs, hcs.members_eq, List.nil_sublist _⟩
  | true =>
    have hlive : (s.arena.find? x).isSome := by
      cases he : s.arena.find? x with
      | none => simp [Arena.readable?, he] at hx
      | some e => rfl
    obtain ⟨cs, hcs, hmem⟩ := h.sound.wired.ring x d hlive
    have hlen := hcs.length_le_engaged h.sound.tidy
    -- at the start no member lies behind the walk
    have hall : s.arena.IsRing x d ([] ++ cs) := hcs
    have hyields : w.Yields s.arena (cs.filterMap (w.triple? s.arena x d)) :=
      Triples.yields_of_resume ha rfl hall hlen (Triples.resume?_start rfl hcs hx)
    have hsub := sublist_connectors (w := w) (t := s.arena) (x := x) (d := d) cs
    have hnewest := (h.sound.wired.newest x d cs hcs).sublist hsub
    refine ⟨_, open?_of_anchor? hp, hyields, found_of_yields (open?_of_anchor? hp) hyields ?_,
      fun τ => Triples.mem_filterMap_iff (w := w) ha hx hmem, hcs.nodup.sublist hsub,
      List.pairwise_map.1 hnewest, fun y d' hy _ => ?_⟩
    · have := List.length_filterMap_le (w.triple? s.arena x d) cs
      rw [tripleBound]
      omega
    · obtain ⟨rfl, rfl⟩ : x = y ∧ d = d' := by simpa [ha] using hy
      exact ⟨cs, hcs.members_eq, hsub⟩

/-- Triples in the order of their connectors are known by what is among them. -/
theorem WalksRing.eq_of_mem_iff (h : s.WalksRing made p levels τs)
    (hnewest : τs'.Pairwise fun τ τ' => Arena.Newer made τ.connector τ'.connector)
    (hmem : ∀ τ, τ ∈ τs ↔ τ ∈ τs') : τs = τs' := by
  have hnodup : ∀ {l : List Triple},
      (l.Pairwise fun τ τ' => Arena.Newer made τ.connector τ'.connector) → l.Nodup := fun hl =>
    hl.imp fun {τ τ'} hnewer => by
      rintro rfl
      exact Nat.lt_irrefl _ hnewer
  refine List.Perm.eq_of_pairwise (fun τ τ' _ _ hnewer hnewer' => ?_) h.newest hnewest ?_
  · exact absurd (Nat.lt_trans hnewer hnewer') (Nat.lt_irrefl _)
  · exact (List.perm_ext_iff_of_nodup (hnodup h.newest) (hnodup hnewest)).2 hmem

/-- A walk that asks for more than another yields what is left of it when the rest is dropped. -/
theorem AtRest.found_eq_filter (h : s.AtRest made) (hp : p.anchor?.isSome) (hq : q.anchor?.isSome)
    {f : Triple → Bool}
    (hf : ∀ τ, p.Fits s.arena levels τ ↔ q.Fits s.arena levels τ ∧ f τ = true) :
    s.found p levels = (s.found q levels).map (·.filter f) := by
  obtain ⟨τs, hτs⟩ := h.exists_walksRing hp levels
  obtain ⟨τs', hτs'⟩ := h.exists_walksRing hq levels
  rw [hτs.found, hτs'.found]
  refine congrArg Except.ok (hτs.eq_of_mem_iff (hτs'.newest.filter f) fun τ => ?_)
  rw [List.mem_filter, hτs.mem_iff, hτs'.mem_iff, hf]

/-- To name an element is to ask for bits of its type and to leave out all others. -/
theorem fits_fixed_iff {t : Arena} {a : Address}
    (hn : ∀ type, t.readable? levels y = some type → type.fits n = true) :
    Term.Fits (.fixed y) t levels a ↔ Term.Fits (.any n) t levels a ∧ a = y := by
  constructor
  · rintro ⟨type, htype, haccepts⟩
    obtain rfl : y = a := by simpa [Term.accepts] using haccepts
    exact ⟨⟨type, htype, hn type htype⟩, rfl⟩
  · rintro ⟨⟨type, htype, -⟩, rfl⟩
    exact ⟨type, htype, by simp [Term.accepts]⟩

end Store

namespace Reached

variable {allowed : Settings → Prop} {made : List Address} {s : Store}

/-- Whatever was reached, a walk along a ring yields exactly what fits, once each and in the order
of the ring, and then it stays at its end. A walk from one element to another yields what the walk
from the one yields with the other at the end, and what the walk to the other yields with the one
at the beginning, if the bits that these walks ask for at their open ends are there. -/
theorem ring_walks_exact (h : Reached allowed made s) (levels : Access) :
    (∀ p : Pattern, p.anchor?.isSome → ∃ τs, s.WalksRing made p levels τs) ∧
    ∀ (x y : Address) (m n : ElementType),
      ((∀ type, s.arena.readable? levels y = some type → type.fits n = true) →
        s.found ⟨.fixed x, .any m, .fixed y⟩ levels
          = (s.found ⟨.fixed x, .any m, .any n⟩ levels).map (·.filter (·.target = y))) ∧
      ((∀ type, s.arena.readable? levels x = some type → type.fits n = true) →
        s.found ⟨.fixed x, .any m, .fixed y⟩ levels
          = (s.found ⟨.any n, .any m, .fixed y⟩ levels).map (·.filter (·.source = x))) := by
  refine ⟨fun p hp => h.atRest.exists_walksRing hp levels, fun x y m n => ⟨fun hn => ?_,
    fun hn => ?_⟩⟩
  · refine h.atRest.found_eq_filter rfl rfl fun τ => ?_
    rw [decide_eq_true_eq]
    constructor
    · rintro ⟨hjoins, hsource, hconnector, htarget⟩
      obtain ⟨htype, hy⟩ := (Store.fits_fixed_iff hn).1 htarget
      exact ⟨⟨hjoins, hsource, hconnector, htype⟩, hy⟩
    · rintro ⟨⟨hjoins, hsource, hconnector, htype⟩, hy⟩
      exact ⟨hjoins, hsource, hconnector, (Store.fits_fixed_iff hn).2 ⟨htype, hy⟩⟩
  · refine h.atRest.found_eq_filter rfl rfl fun τ => ?_
    rw [decide_eq_true_eq]
    constructor
    · rintro ⟨hjoins, hsource, hconnector, htarget⟩
      obtain ⟨htype, hx⟩ := (Store.fits_fixed_iff hn).1 hsource
      exact ⟨⟨hjoins, htype, hconnector, htarget⟩, hx⟩
    · rintro ⟨⟨hjoins, htype, hconnector, htarget⟩, hx⟩
      exact ⟨hjoins, (Store.fits_fixed_iff hn).2 ⟨htype, hx⟩, hconnector, htarget⟩

/-- The sample, with an edge and an arc from an element to itself on its rings. -/
theorem ring_walks_exact_sampleStore : Reached (· = .small) sampleMade sampleStore ∧
    (∀ p : Pattern, p.anchor?.isSome → ∃ τs, sampleStore.WalksRing sampleMade p .highest τs) ∧
    ∀ (x y : Address) (m n : ElementType),
      ((∀ type, sampleStore.arena.readable? .highest y = some type → type.fits n = true) →
        sampleStore.found ⟨.fixed x, .any m, .fixed y⟩ .highest
          = (sampleStore.found ⟨.fixed x, .any m, .any n⟩ .highest).map
              (·.filter (·.target = y))) ∧
      ((∀ type, sampleStore.arena.readable? .highest x = some type → type.fits n = true) →
        sampleStore.found ⟨.fixed x, .any m, .fixed y⟩ .highest
          = (sampleStore.found ⟨.any n, .any m, .fixed y⟩ .highest).map
              (·.filter (·.source = x))) :=
  ⟨reached_sampleStore, reached_sampleStore.ring_walks_exact .highest⟩

end Reached

end SemanticNet
