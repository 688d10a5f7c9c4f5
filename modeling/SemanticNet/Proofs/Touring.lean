import SemanticNet.Proofs.Outcomes
import SemanticNet.Proofs.Walking

/-!
# Walks over a changing store

A walk keeps its place while operations change the store between its moves (`Tour`). As long as none
of them erases the connector that was returned last, the members behind it are what is left of the
ring (`Tour.Left`): what is new comes in front, and what is erased drops out. So nothing is returned
twice, nothing that was made on the way, and nothing that fits all along is missed
(`Reached.walks_stable`).
-/

namespace SemanticNet

/-- A walk, and the store as it is by now. -/
structure Tour where
  walk : Triples
  store : Store

/-- What happens on a tour: an operation on the store, or a call for the next triple. -/
inductive Turn where
  | act (k : Action)
  | next

namespace Tour

def turn (u : Tour) : Turn → Tour
  | .act k => { u with store := (k.run.on u.store).2 }
  | .next =>
    let (walk, store) := u.store.advanceTriples u.walk
    { walk, store }

/-- The connector of the triple that a turn returns, if it returns one. -/
def returns (u : Tour) : Turn → List Address
  | .act _ => []
  | .next =>
    let walk := (u.turn .next).walk
    if walk.isDone then [] else [walk.current.connector]

/-- Whether a turn erases the connector that was returned last. -/
def cuts (u : Tour) : Turn → Bool
  | .act k =>
    match u.walk.cursor, (k.run.on u.store).1 with
    | .at c, .ok (.erased as) => as.contains c
    | _, _ => false
  | .next => false

/-- The tour after some turns. -/
def after (u : Tour) (es : List Turn) : Tour := es.foldl turn u

/-- What is returned in the course of some turns. -/
def returned : Tour → List Turn → List Address
  | _, [] => []
  | u, e :: es => u.returns e ++ (u.turn e).returned es

/-- Whether no turn erases the connector that was returned last. -/
def spares : Tour → List Turn → Bool
  | _, [] => true
  | u, e :: es => !u.cuts e && (u.turn e).spares es

/-- The tour as it stands before, between and after some turns. -/
def stages : Tour → List Turn → List Tour
  | u, [] => [u]
  | u, e :: es => u :: (u.turn e).stages es

/-- There is a triple of the connector `c` that the walk asks for. -/
def Fits (u : Tour) (c : Address) : Prop :=
  ∃ τ : Triple, τ.connector = c ∧ u.walk.pattern.Fits u.store.arena u.walk.levels τ

variable {u : Tour} {e : Turn} {es es' : List Turn} {k : Action} {x c : Address} {d : Direction}
  {as bs : List Address} {made : List Address}

/-! ## Runs of turns -/

theorem after_append : u.after (es ++ es') = (u.after es).after es' := List.foldl_append

theorem returned_append : u.returned (es ++ es') = u.returned es ++ (u.after es).returned es' := by
  induction es generalizing u with
  | nil => rfl
  | cons e es ih =>
    rw [List.cons_append, returned, ih, returned, List.append_assoc]
    rfl

theorem spares_append : u.spares (es ++ es') = (u.spares es && (u.after es).spares es') := by
  induction es generalizing u with
  | nil => rfl
  | cons e es ih =>
    rw [List.cons_append, spares, ih, spares, Bool.and_assoc]
    rfl

/-- Before the first call nothing is returned, and the walk stays where it is. -/
theorem waits (h : .next ∉ es) : (u.after es).walk = u.walk ∧ u.returned es = [] := by
  induction es generalizing u with
  | nil => exact ⟨rfl, rfl⟩
  | cons e es ih =>
    obtain ⟨he, hes⟩ := not_or.1 (List.mem_cons.not.1 h)
    cases e with
    | next => exact absurd rfl he
    | act k => exact ih (u := u.turn (.act k)) hes

theorem mem_stages : u ∈ u.stages es := by
  cases es <;> exact List.mem_cons_self

theorem stages_cons_subset : u.stages [e] ⊆ u.stages (e :: es) := by
  intro v hv
  rcases List.mem_pair.1 hv with rfl | rfl
  · exact mem_stages
  · exact List.mem_cons_of_mem u mem_stages

theorem exists_first_next (h : .next ∈ es) : ∃ es₁ es₂, es = es₁ ++ .next :: es₂ ∧ .next ∉ es₁ := by
  induction es with
  | nil => cases h
  | cons e es ih =>
    cases e with
    | next => exact ⟨[], es, rfl, List.not_mem_nil⟩
    | act k =>
      have hes : .next ∈ es := by simpa using h
      obtain ⟨es₁, es₂, rfl, hnot⟩ := ih hes
      exact ⟨.act k :: es₁, es₂, rfl, by simpa using hnot⟩

/-! ## What is left of a ring -/

/-- After the connector that was returned last, the members `bs` of the ring of `x` are left. A walk
at its end has none left. -/
structure Left (x : Address) (d : Direction) (u : Tour) (bs : List Address) : Prop where
  rest : ∃ made, u.store.AtRest made
  anchor : u.walk.pattern.anchor? = some (x, d)
  place : u.walk.cursor = .done ∧ bs = [] ∨
    ∃ k as, u.walk.cursor = .at k ∧ u.store.arena.IsRing x d (as ++ k :: bs)

/-- Of the members `bs` that were left, `bs'` are left when those of `cs` were returned; what fits
is among the one or the other. -/
structure Leaves (x : Address) (d : Direction) (u' : Tour) (bs cs bs' : List Address)
    (fits : Address → Prop) : Prop where
  left : Left x d u' bs'
  sublist : (cs ++ bs').Sublist bs
  fits : ∀ c ∈ bs, fits c → c ∈ cs ++ bs'

/-- A walk that is not at its end has not come to it by an operation. -/
theorem Left.eq_nil_of_isDone (h : Left x d u bs) (hdone : u.walk.isDone = true) : bs = [] := by
  rcases h.place with ⟨-, hnil⟩ | ⟨k, as, hcursor, -⟩
  · exact hnil
  · simp [Triples.isDone, hcursor] at hdone

theorem Leaves.trans {u' u'' : Tour} {bs' bs'' cs cs' : List Address} {fits fits' : Address → Prop}
    (h : Leaves x d u' bs cs bs' fits) (h' : Leaves x d u'' bs' cs' bs'' fits') :
    Leaves x d u'' bs (cs ++ cs') bs'' fun c => fits c ∧ fits' c where
  left := h'.left
  sublist := by
    rw [List.append_assoc]
    exact ((List.Sublist.refl cs).append h'.sublist).trans h.sublist
  fits c hc hfits := by
    rw [List.append_assoc]
    rcases List.mem_append.1 (h.fits c hc hfits.1) with hcs | hbs
    · exact List.mem_append_left _ hcs
    · exact List.mem_append_right _ (h'.fits c hbs hfits.2)

/-- Nothing was returned, and the same members are left. -/
theorem Left.still {fits : Address → Prop} (h : Left x d u bs) : Leaves x d u bs [] bs fits :=
  ⟨h, List.Sublist.refl bs, fun _ hb _ => hb⟩

theorem Leaves.mono {u' : Tour} {bs' cs : List Address} {fits fits' : Address → Prop}
    (h : Leaves x d u' bs cs bs' fits) (hfits : ∀ c ∈ bs, fits' c → fits c) :
    Leaves x d u' bs cs bs' fits' :=
  ⟨h.left, h.sublist, fun c hc hc' => h.fits c hc (hfits c hc hc')⟩

/-! ## What fits -/

/-- What the walk asks for is in the ring, and the walk finds it there. -/
theorem Fits.triple? (h : u.Fits c) (ha : u.walk.pattern.anchor? = some (x, d)) :
    u.store.arena.Incident x d c ∧ u.walk.triple? u.store.arena x d c ≠ none := by
  obtain ⟨τ, rfl, hτ⟩ := h
  have hx : (u.store.arena.readable? u.walk.levels x).isSome := by
    by_contra hnot
    exact Triples.not_fits_of_unreadable ha (by simpa using hnot) hτ
  obtain ⟨y, hy⟩ := Triples.eq_along_of_fits ha hτ
  rw [hy] at hτ
  obtain ⟨hinc, htriple⟩ := (Triples.fits_along_iff ha hx).1 hτ
  exact ⟨hinc, by simp [htriple]⟩

theorem Fits.mem_ring {cs : List Address} (h : u.Fits c)
    (ha : u.walk.pattern.anchor? = some (x, d)) (hrest : u.store.AtRest made)
    (hcs : u.store.arena.IsRing x d cs) : c ∈ cs := by
  obtain ⟨cs', hcs', hmem⟩ := hrest.sound.wired.ring x d hcs.isSome_owner
  obtain rfl := hcs.unique hcs'
  exact (hmem c).2 (h.triple? ha).1

/-! ## One turn -/

/-- A move counts, and changes nothing else in the store. -/
theorem atRest_next (h : u.store.AtRest made) : (u.turn .next).store.AtRest made :=
  h.agrees ⟨rfl, rfl, rfl⟩

/-- When no member fits that is left, the walk comes to its end. -/
theorem leaves_of_finish (hrest : u.store.AtRest made)
    (ha : u.walk.pattern.anchor? = some (x, d))
    (hmove : (u.walk.advance u.store.arena).1 = u.walk.finish) (hbs : ∀ c ∈ bs, ¬u.Fits c) :
    Leaves x d (u.turn .next) bs (u.returns .next) [] u.Fits := by
  have hwalk : (u.turn .next).walk = u.walk.finish := hmove
  have hreturns : u.returns .next = [] := by
    rw [returns, hwalk]
    rfl
  rw [hreturns]
  refine ⟨⟨⟨made, atRest_next hrest⟩, ?_, .inl ⟨?_, rfl⟩⟩, List.nil_sublist _, ?_⟩
  · rw [hwalk]
    exact ha
  · rw [hwalk]
    rfl
  · intro c hc hfits
    exact absurd hfits (hbs c hc)

/-- A walk that is to go on with the members `bs` of a ring returns the first one that fits. -/
theorem leaves_of_resume (hrest : u.store.AtRest made)
    (ha : u.walk.pattern.anchor? = some (x, d)) (hd : u.walk.isDone = false)
    (hring : u.store.arena.IsRing x d (as ++ bs))
    (hresume : u.walk.resume? u.store.arena x d = bs.head?) :
    ∃ bs', Leaves x d (u.turn .next) bs (u.returns .next) bs' u.Fits := by
  have hlen := hring.length_le_engaged hrest.sound.tidy
  have hadvance := Triples.advance_eq (t := u.store.arena) ha hd
  cases hτs : bs.filterMap (u.walk.triple? u.store.arena x d) with
  | nil =>
    have hnone := List.filterMap_eq_nil_iff.1 hτs
    refine ⟨[], leaves_of_finish hrest ha ?_ fun c hc hfits => (hfits.triple? ha).2 (hnone c hc)⟩
    rw [hadvance]
    exact Triples.advanceInRing_of_none hring hlen hresume hnone
  | cons τ τs =>
    obtain ⟨ds, c, cs, rfl, hds, hc, -⟩ := List.filterMap_eq_cons_iff.1 hτs
    have hwalk : (u.turn .next).walk = { u.walk with cursor := .at c, current := τ } := by
      show (u.walk.advance u.store.arena).1 = _
      rw [hadvance]
      exact Triples.advanceInRing_of_some hring hlen hresume hds hc
    obtain ⟨y, -, rfl⟩ := Option.map_eq_some_iff.1 hc
    have hreturns : u.returns .next = [c] := by
      rw [returns, hwalk]
      show [(Triple.along x c y d).connector] = [c]
      rw [Triple.connector_along]
    rw [hreturns]
    refine ⟨cs, ⟨⟨made, atRest_next hrest⟩, ?_, .inr ⟨c, as ++ ds, ?_, ?_⟩⟩, ?_, ?_⟩
    · rw [hwalk]
      exact ha
    · rw [hwalk]
    · rw [List.append_assoc]
      exact hring
    · exact List.sublist_append_right ds (c :: cs)
    · intro b hb hfits
      rcases List.mem_append.1 hb with hb | hb
      · exact absurd (hds b hb) (hfits.triple? ha).2
      · exact hb

theorem Left.next (h : Left x d u bs) :
    ∃ bs', Leaves x d (u.turn .next) bs (u.returns .next) bs' u.Fits := by
  obtain ⟨made, hrest⟩ := h.rest
  rcases h.place with ⟨hcursor, rfl⟩ | ⟨k, as, hcursor, hring⟩
  · -- a walk at its end stays there
    have hdone : u.walk.isDone = true := by simp [Triples.isDone, hcursor]
    have hwalk : (u.turn .next).walk = u.walk := by
      show (u.walk.advance u.store.arena).1 = u.walk
      simp [Triples.advance, hdone]
    have hreturns : u.returns .next = [] := by simp [returns, hwalk, hdone]
    rw [hreturns]
    have hleft : Left x d (u.turn .next) [] :=
      ⟨⟨made, atRest_next hrest⟩, hwalk ▸ h.anchor, .inl ⟨hwalk ▸ hcursor, rfl⟩⟩
    exact ⟨[], hleft.still⟩
  · have hring' : u.store.arena.IsRing x d ((as ++ [k]) ++ bs) := by simpa using hring
    have hgoing : u.walk.isDone = false := by simp [Triples.isDone, hcursor]
    exact leaves_of_resume hrest h.anchor hgoing hring' (Triples.resume?_at hcursor hring)

/-- An operation that spares the connector that was returned last leaves the members behind it, less
those that it erases. What it makes is not among them. -/
theorem Left.act (h : Left x d u bs) (hk : k.Admissible) (hcut : u.cuts (.act k) = false) :
    ∃ bs', Leaves x d (u.turn (.act k)) bs [] bs' (u.turn (.act k)).Fits ∧
      ∀ a, (k.run.on u.store).1 = .ok (.made a) → a ∉ bs' := by
  obtain ⟨made, hrest⟩ := h.rest
  have hrest' := k.atRest_run hk hrest
  rcases h.place with ⟨hcursor, rfl⟩ | ⟨j, as, hcursor, hring⟩
  · have hleft : Left x d (u.turn (.act k)) [] := ⟨⟨_, hrest'⟩, h.anchor, .inl ⟨hcursor, rfl⟩⟩
    exact ⟨[], hleft.still, fun a _ => List.not_mem_nil⟩
  · have hleft : ∀ {as' bs'}, (k.run.on u.store).2.arena.IsRing x d (as' ++ j :: bs') →
        Left x d (u.turn (.act k)) bs' :=
      fun hring' => ⟨⟨_, hrest'⟩, h.anchor, .inr ⟨j, _, hcursor, hring'⟩⟩
    rcases k.ring_cases hk hrest hring with ⟨c, hrun, hc, hring'⟩ | ⟨order, hrun, hgone, hring'⟩ |
      ⟨hmade, -, hring'⟩
    · -- a new connector comes in front of the ring
      have hnew : ∀ a, (k.run.on u.store).1 = .ok (.made a) → a ∉ bs := by
        intro a ha hb
        obtain rfl : c = a := by simpa [hrun] using ha
        exact hc (by simp [hb])
      rcases hring' with hring' | hring'
      · have hring' : (k.run.on u.store).2.arena.IsRing x d ((c :: as) ++ j :: bs) := hring'
        exact ⟨bs, (hleft hring').still, hnew⟩
      · exact ⟨bs, (hleft hring').still, hnew⟩
    · -- the owner is not erased, for the connector that was returned last would go with it
      have hj : j ∉ order := by simpa [cuts, hcursor, hrun] using hcut
      have hx : x ∉ order := fun hx => hj (hgone hx j (by simp))
      have hring' := hring' hx
      have hsplit : (as ++ j :: bs).filter (· ∉ order)
          = as.filter (· ∉ order) ++ j :: bs.filter (· ∉ order) := by
        simp [List.filter_append, hj]
      refine ⟨bs.filter (· ∉ order), ⟨hleft (hsplit ▸ hring'), List.filter_sublist, ?_⟩, ?_⟩
      · intro b hb hfits
        have hmem := hfits.mem_ring h.anchor hrest' hring'
        exact List.mem_filter.2 ⟨hb, (List.mem_filter.1 hmem).2⟩
      · intro a ha
        simp [hrun] at ha
    · exact ⟨bs, (hleft hring').still, fun a ha => absurd ha (hmade a)⟩

/-! ## Many turns -/

/-- The operations among some turns are admissible. -/
def Admissible (es : List Turn) : Prop := ∀ k, .act k ∈ es → k.Admissible

theorem Left.step (h : Left x d u bs) (he : Admissible [e]) (hcut : u.cuts e = false) :
    ∃ bs', Leaves x d (u.turn e) bs (u.returns e) bs' fun c =>
      ∀ v ∈ u.stages [e], v.walk.isDone = false → v.Fits c := by
  -- a walk that has members left is under way
  have hgoing : ∀ c ∈ bs, u.walk.isDone = false := by
    intro c hc
    by_contra hdone
    rw [h.eq_nil_of_isDone (by simpa using hdone)] at hc
    cases hc
  cases e with
  | act k =>
    obtain ⟨bs', hleaves, -⟩ := h.act (he k (by simp)) hcut
    exact ⟨bs', hleaves.mono fun c hc hfits => hfits _ (by simp [stages]) (hgoing c hc)⟩
  | next =>
    obtain ⟨bs', hleaves⟩ := h.next
    exact ⟨bs', hleaves.mono fun c hc hfits => hfits _ (by simp [stages]) (hgoing c hc)⟩

/-- However many turns follow, what is returned is among the members that were left, each in its
turn, and with it everything that fits for as long as the walk goes on. -/
theorem Left.run (h : Left x d u bs) (hes : Admissible es) (hspares : u.spares es = true) :
    ∃ bs', Leaves x d (u.after es) bs (u.returned es) bs' fun c =>
      ∀ v ∈ u.stages es, v.walk.isDone = false → v.Fits c := by
  induction es generalizing u bs with
  | nil => exact ⟨bs, h.still⟩
  | cons e es ih =>
    obtain ⟨hcut, hspares⟩ : u.cuts e = false ∧ (u.turn e).spares es = true := by
      simpa [spares] using hspares
    have he : Admissible [e] := by
      intro k hk
      rw [List.mem_singleton] at hk
      exact hes k (hk ▸ List.mem_cons_self)
    obtain ⟨bs', hstep⟩ := h.step he hcut
    obtain ⟨bs'', hrun⟩ := ih hstep.left (fun k hk => hes k (List.mem_cons_of_mem e hk)) hspares
    refine ⟨bs'', (hstep.trans hrun).mono fun c _ hfits => ⟨?_, ?_⟩⟩
    · intro v hv
      exact hfits v (stages_cons_subset hv)
    · intro v hv
      exact hfits v (List.mem_cons_of_mem u hv)

/-- The first call sets out with the whole ring of the anchor, if the walk may read the anchor. -/
theorem exists_left_of_start (hrest : u.store.AtRest made)
    (ha : u.walk.pattern.anchor? = some (x, d)) (hstart : u.walk.cursor = .start) :
    ∃ bs bs', bs.Nodup ∧ (∀ c, u.Fits c → c ∈ bs) ∧
      Leaves x d (u.turn .next) bs (u.returns .next) bs' u.Fits := by
  have hgoing : u.walk.isDone = false := by simp [Triples.isDone, hstart]
  cases hx : u.store.arena.readable? u.walk.levels x with
  | none =>
    have hnot : ∀ c, ¬u.Fits c := by
      intro c hfits
      obtain ⟨τ, -, hτ⟩ := hfits
      exact Triples.not_fits_of_unreadable ha hx hτ
    have hmove : (u.walk.advance u.store.arena).1 = u.walk.finish := by
      rw [Triples.advance_eq ha hgoing, Triples.advanceInRing]
      simp [Triples.resume?, hstart, hx]
    exact ⟨[], [], List.nodup_nil, fun c hfits => absurd hfits (hnot c),
      leaves_of_finish hrest ha hmove fun c _ => hnot c⟩
  | some type =>
    have hread := Option.isSome_of_eq_some hx
    have howner : (u.store.arena.find? x).isSome := by
      cases he : u.store.arena.find? x with
      | none => simp [Arena.readable?, he] at hread
      | some e => rfl
    obtain ⟨cs, hring, -⟩ := hrest.sound.wired.ring x d howner
    have hresume := Triples.resume?_start hstart hring hread
    have hwhole : u.store.arena.IsRing x d ([] ++ cs) := hring
    obtain ⟨bs', hleaves⟩ := leaves_of_resume hrest ha hgoing hwhole hresume
    exact ⟨cs, bs', hring.nodup, fun c hfits => hfits.mem_ring ha hrest hring, hleaves⟩

theorem exists_atRest_after (hrest : u.store.AtRest made) (hes : Admissible es) :
    ∃ made, (u.after es).store.AtRest made := by
  induction es generalizing u made with
  | nil => exact ⟨made, hrest⟩
  | cons e es ih =>
    have hes' : Admissible es := fun k hk => hes k (List.mem_cons_of_mem e hk)
    cases e with
    | next => exact ih (u := u.turn .next) (atRest_next hrest) hes'
    | act k =>
      exact ih (u := u.turn (.act k)) (k.atRest_run (hes k List.mem_cons_self) hrest) hes'

/-- From the first call on, what is returned and what is left are members of the ring as it was at
that call. -/
theorem exists_leaves_of_first (hrest : u.store.AtRest made)
    (ha : u.walk.pattern.anchor? = some (x, d)) (hstart : u.walk.cursor = .start)
    (hes : Admissible (es ++ .next :: es')) (hspares : u.spares (es ++ .next :: es') = true)
    (hfirst : .next ∉ es) :
    ∃ bs bs', bs.Nodup ∧ (∀ c, (u.after es).Fits c → c ∈ bs) ∧
      Leaves x d (u.after (es ++ .next :: es')) bs (u.returned (es ++ .next :: es')) bs' fun c =>
        ∀ v ∈ (u.after es).stages (.next :: es'), v.walk.isDone = false → v.Fits c := by
  obtain ⟨hwalk, hnil⟩ := waits (u := u) hfirst
  obtain ⟨made', hrest'⟩ := exists_atRest_after hrest fun k hk => hes k (List.mem_append_left _ hk)
  have hes' : Admissible es' := fun k hk => hes k (by simp [hk])
  have hspares' : ((u.after es).turn .next).spares es' = true := by
    rw [spares_append, Bool.and_eq_true, spares] at hspares
    simpa [cuts] using hspares.2
  obtain ⟨bs, bs₁, hnodup, hmem, hfst⟩ :=
    exists_left_of_start hrest' (hwalk ▸ ha) (hwalk ▸ hstart)
  obtain ⟨bs₂, hrun⟩ := hfst.left.run hes' hspares'
  rw [after_append, returned_append, hnil]
  refine ⟨bs, bs₂, hnodup, hmem, (hfst.trans hrun).mono fun c _ hfits => ⟨?_, ?_⟩⟩
  · exact hfits _ mem_stages (by simp [Triples.isDone, hwalk, hstart])
  · exact fun v hv => hfits v (List.mem_cons_of_mem _ hv)

/-- What a tour returns in the course of some turns: each connector at most once, none that was made
after the first call, and each one that fits from the first call until the walk comes to its
end. -/
structure Stable (u : Tour) (es : List Turn) : Prop where
  once : (u.returned es).Nodup
  old : ∀ es₁ k es₂ a, es = es₁ ++ .act k :: es₂ → .next ∈ es₁ →
    (k.run.on (u.after es₁).store).1 = .ok (.made a) →
    a ∉ (u.after (es₁ ++ [.act k])).returned es₂
  all : ∀ es₁ es₂ c, es = es₁ ++ .next :: es₂ → .next ∉ es₁ → (u.after es).walk.isDone = true →
    (∀ v ∈ (u.after es₁).stages (.next :: es₂), v.walk.isDone = false → v.Fits c) →
    c ∈ u.returned es

theorem stable_of_start (hrest : u.store.AtRest made)
    (ha : u.walk.pattern.anchor? = some (x, d)) (hstart : u.walk.cursor = .start)
    (hes : Admissible es) (hspares : u.spares es = true) : u.Stable es where
  once := by
    by_cases hnext : .next ∈ es
    · obtain ⟨es₁, es₂, rfl, hfirst⟩ := exists_first_next hnext
      obtain ⟨bs, bs', hnodup, -, hleaves⟩ :=
        exists_leaves_of_first hrest ha hstart hes hspares hfirst
      exact (List.nodup_append.1 (hnodup.sublist hleaves.sublist)).1
    · rw [(waits hnext).2]
      exact List.nodup_nil
  old := by
    intro es₁ k es₂ a hsplit hnext hmade hret
    obtain ⟨es₀, es₁', rfl, hfirst⟩ := exists_first_next hnext
    subst hsplit
    rw [spares_append, Bool.and_eq_true] at hspares
    obtain ⟨hbefore, hafter⟩ := hspares
    obtain ⟨hcut, hafter⟩ : _ ∧ _ := by
      simpa [spares] using hafter
    obtain ⟨bs, bs', -, -, hleaves⟩ := exists_leaves_of_first hrest ha hstart
      (fun l hl => hes l (List.mem_append_left _ hl)) hbefore hfirst
    obtain ⟨bs₁, hact, hnew⟩ := hleaves.left.act (hes k (by simp)) hcut
    obtain ⟨bs₂, hrun⟩ := hact.left.run (fun l hl => hes l (by simp [hl])) hafter
    rw [after_append] at hret
    exact hnew a hmade (hrun.sublist.subset (List.mem_append_left _ hret))
  all := by
    intro es₁ es₂ c hsplit hfirst hdone hfits
    subst hsplit
    obtain ⟨bs, bs', -, hmem, hleaves⟩ :=
      exists_leaves_of_first hrest ha hstart hes hspares hfirst
    have hnow : (u.after es₁).Fits c := by
      refine hfits _ mem_stages ?_
      simp [Triples.isDone, (waits hfirst).1, hstart]
    have hret := hleaves.fits c (hmem c hnow) hfits
    rw [hleaves.left.eq_nil_of_isDone hdone, List.append_nil] at hret
    exact hret

end Tour

/-- A walk over a pattern that is about to begin. -/
def Store.tour (s : Store) (p : Pattern) (levels : Access) : Tour :=
  { walk := { pattern := p, levels }, store := s }

/-- Whatever operations come between the calls of a walk along a ring, as long as none of them
erases the connector that was returned last, what it returns is stable. -/
theorem Reached.walks_stable {allowed : Settings → Prop} {made : List Address} {s : Store}
    {p : Pattern} {es : List Turn} (h : Reached allowed made s) (hp : p.anchor?.isSome)
    (levels : Access) (hes : Tour.Admissible es) (hspares : (s.tour p levels).spares es = true) :
    (s.tour p levels).Stable es := by
  obtain ⟨⟨x, d⟩, ha⟩ := Option.isSome_iff_exists.1 hp
  exact Tour.stable_of_start h.atRest ha rfl hes hspares

/-- Before the first call there is a new arc from the first node of the sample. Between the first
call and the second the arc behind it is erased, and the next one that is made has its address. -/
def sampleTurns : List Turn :=
  [.act (.connect .commonArc ⟨1, 1⟩ ⟨1, 3⟩ .lowest), .next, .act (.erase ⟨1, 5⟩),
    .act (.connect .membershipArc ⟨1, 1⟩ ⟨1, 2⟩ .lowest), .next, .next]

/-- A walk along the outgoing ring of the first node of the sample. -/
def sampleTour : Tour :=
  sampleStore.tour ⟨.fixed ⟨1, 1⟩, .any .unknown, .any .unknown⟩ .highest

theorem Reached.walks_stable_sampleStore : Reached (· = .small) sampleMade sampleStore ∧
    Tour.Admissible sampleTurns ∧ sampleTour.spares sampleTurns = true ∧
    sampleTour.returned sampleTurns = [⟨1, 7⟩, ⟨1, 4⟩] ∧ sampleTour.Stable sampleTurns := by
  have hes : Tour.Admissible sampleTurns := by
    simp [Tour.Admissible, sampleTurns, Action.Admissible, Access.inUse_lowest]
  have hspares : sampleTour.spares sampleTurns = true := by decide +kernel
  have hreturned : sampleTour.returned sampleTurns = [⟨1, 7⟩, ⟨1, 4⟩] := by decide +kernel
  exact ⟨reached_sampleStore, hes, hspares, hreturned,
    reached_sampleStore.walks_stable rfl .highest hes hspares⟩

end SemanticNet
