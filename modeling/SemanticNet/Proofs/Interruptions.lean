import SemanticNet.Proofs.Touring

/-!
# Walks whose connector is erased

When the connector that was returned last is erased, the next call finds nothing at its address and
ends the walk for good, unless another element has that address by then. The walk can not tell the
two apart: if the new element sits in the same ring, with something behind it that fits, the walk
goes on behind the new element (`Reached.walk_ends_after_erasure`), and it may return once more what
it has returned before (`erased_connector_returned_again`).
-/

namespace SemanticNet

/-- What does not belong in a ring has no place in it. -/
theorem Arena.next?_eq_none {t : Arena} {x c : Address} {d : Direction} (h : ¬t.Incident x d c) :
    t.next? c x d = none := by
  cases he : t.find? c with
  | none => simp [next?, he]
  | some e =>
    have hlink : e.link? x d = none := by
      rw [← Option.not_isSome_iff_eq_none, Element.link?_isSome_iff]
      exact fun hplace => h ⟨e, he, hplace⟩
    simp [next?, he, hlink]

namespace Tour

variable {u : Tour} {k : Action} {ks : List Action} {x c : Address} {d : Direction}
  {as bs made : List Address}

/-- The connector `c` was returned last, and the operation erases it. -/
def CutsAt (u : Tour) (k : Action) (c : Address) : Prop :=
  u.walk.cursor = .at c ∧ u.cuts (.act k) = true

/-- The next call comes to the end of the walk. From then on nothing is returned, whatever becomes
of the store. -/
def Over (u : Tour) : Prop :=
  ∀ es, u.returned (.next :: es) = [] ∧ (u.after (.next :: es)).walk = u.walk.finish

/-- The address `c` is in the ring that the walk goes along, and behind it there is a member that
fits. -/
def Resumes (u : Tour) (c : Address) : Prop :=
  ∃ x d as bs, u.walk.pattern.anchor? = some (x, d) ∧ u.store.arena.IsRing x d (as ++ c :: bs) ∧
    ∃ b ∈ bs, (u.walk.triple? u.store.arena x d b).isSome

/-! ## The end of a walk -/

/-- A walk at its end stays there and returns nothing. -/
theorem stays (h : u.walk.isDone = true) (es : List Turn) :
    (u.after es).walk = u.walk ∧ u.returned es = [] := by
  induction es generalizing u with
  | nil => exact ⟨rfl, rfl⟩
  | cons e es ih =>
    cases e with
    | act k => exact ih (u := u.turn (.act k)) h
    | next =>
      have hwalk : (u.turn .next).walk = u.walk := by
        show (u.walk.advance u.store.arena).1 = u.walk
        simp [Triples.advance, h]
      obtain ⟨hafter, hreturned⟩ := ih (u := u.turn .next) (hwalk ▸ h)
      refine ⟨hafter.trans hwalk, ?_⟩
      rw [returned, hreturned, returns, hwalk]
      simp [h]

theorem over_iff_finish : u.Over ↔ (u.turn .next).walk = u.walk.finish := by
  constructor
  · intro h
    exact (h []).2
  · intro hend es
    have hdone : (u.turn .next).walk.isDone = true := hend ▸ rfl
    obtain ⟨hafter, hreturned⟩ := stays hdone es
    refine ⟨?_, hafter.trans hend⟩
    rw [returned, hreturned, returns, hend]
    rfl

/-! ## The call after an erasure -/

/-- From a connector that is in the ring the walk is to go on with what fits behind it. -/
theorem yields_behind (hrest : u.store.AtRest made) (ha : u.walk.pattern.anchor? = some (x, d))
    (hc : u.walk.cursor = .at c) (hring : u.store.arena.IsRing x d (as ++ c :: bs)) :
    u.walk.Yields u.store.arena (bs.filterMap (u.walk.triple? u.store.arena x d)) := by
  have hgoing : u.walk.isDone = false := by simp [Triples.isDone, hc]
  have hring' : u.store.arena.IsRing x d ((as ++ [c]) ++ bs) := by simpa using hring
  exact Triples.yields_of_resume ha hgoing hring' (hring'.length_le_engaged hrest.sound.tidy)
    (Triples.resume?_at hc hring)

/-- The next call looks for the address of the last connector in the ring, and for what fits behind
it. -/
theorem over_iff (hrest : u.store.AtRest made) (ha : u.walk.pattern.anchor? = some (x, d))
    (hc : u.walk.cursor = .at c) : u.Over ↔ ¬u.Resumes c := by
  rw [over_iff_finish]
  show (u.walk.advance u.store.arena).1 = u.walk.finish ↔ _
  constructor
  · intro hend hresumes
    obtain ⟨x', d', as, bs, ha', hring, b, hb, hfits⟩ := hresumes
    have hyields := yields_behind hrest ha' hc hring
    cases hτs : bs.filterMap (u.walk.triple? u.store.arena x' d') with
    | nil =>
      rw [List.filterMap_eq_nil_iff.1 hτs b hb] at hfits
      cases hfits
    | cons τ τs =>
      rw [hτs] at hyields
      obtain ⟨hgoing, -⟩ := hyields.advance_cons
      rw [hend] at hgoing
      cases hgoing
  · intro hnot
    by_cases hinc : u.store.arena.Incident x d c
    · have howner := (hrest.sound.wired.ends c x (Arena.touches_iff.2 ⟨d, hinc⟩)).1
      obtain ⟨cs, hring, hmem⟩ := hrest.sound.wired.ring x d howner
      obtain ⟨as, bs, rfl⟩ := List.append_of_mem ((hmem c).2 hinc)
      have hyields := yields_behind hrest ha hc hring
      have hnone : bs.filterMap (u.walk.triple? u.store.arena x d) = [] := by
        refine List.filterMap_eq_nil_iff.2 fun b hb => ?_
        by_contra hfits
        exact hnot ⟨x, d, as, bs, ha, hring, b, hb, Option.isSome_iff_ne_none.2 hfits⟩
      rw [hnone] at hyields
      exact hyields.ends 1 Nat.zero_lt_one
    · have hgoing : u.walk.isDone = false := by simp [Triples.isDone, hc]
      have hresume : u.walk.resume? u.store.arena x d = none := by
        rw [Triples.resume?, hc]
        exact Arena.next?_eq_none hinc
      rw [Triples.advance_eq ha hgoing, Triples.advanceInRing, hresume]

theorem Resumes.isSome (h : u.Resumes c) : (u.store.arena.find? c).isSome := by
  obtain ⟨x, d, as, bs, -, hring, -⟩ := h
  obtain ⟨e, he⟩ := hring.mem_live (c := c) (by simp)
  exact Option.isSome_of_eq_some he

/-- Operations between two calls leave the walk as it is. -/
theorem after_acts :
    u.after (ks.map .act) = { u with store := (Action.runAll ks u.store).2 } := by
  induction ks generalizing u with
  | nil => rfl
  | cons k ks ih => exact ih (u := u.turn (.act k))

theorem CutsAt.dead (h : u.CutsAt k c) (hrest : u.store.AtRest made) (hk : k.Admissible) :
    (u.turn (.act k)).store.arena.find? c = none := by
  obtain ⟨hc, hcut⟩ := h
  cases hrun : (k.run.on u.store).1 with
  | error f => simp [cuts, hc, hrun] at hcut
  | ok answer =>
    cases answer with
    | erased cs =>
      have hmem : c ∈ cs := by simpa [cuts, hc, hrun] using hcut
      exact (Action.erased_cases hk hrest hrun hmem).2
    | _ => simp [cuts, hc, hrun] at hcut

/-- After such an operation and some others the walk is over, unless there is a new element in the
place of the connector. -/
theorem CutsAt.over_iff (h : u.CutsAt k c) (hrest : u.store.AtRest made)
    (ha : u.walk.pattern.anchor? = some (x, d)) (hks : Admissible (.act k :: ks.map .act)) :
    (.ok (.made c) ∉ (Action.runAll ks (u.turn (.act k)).store).1 →
      (u.after (.act k :: ks.map .act)).Over) ∧
    ((u.after (.act k :: ks.map .act)).Over ↔ ¬(u.after (.act k :: ks.map .act)).Resumes c) := by
  have hk : k.Admissible := hks k (by simp)
  have hks' : ∀ l ∈ ks, l.Admissible := fun l hl => hks l (by simp [hl])
  obtain ⟨made', hrest'⟩ := exists_atRest_after hrest hks
  have hafter : u.after (.act k :: ks.map .act)
      = { u with store := (Action.runAll ks (u.turn (.act k)).store).2 } :=
    after_acts (u := u.turn (.act k))
  rw [hafter] at hrest' ⊢
  have hover := Tour.over_iff hrest' ha h.1
  refine ⟨fun hnew => hover.2 fun hresumes => ?_, hover⟩
  have hlive : ((Action.runAll ks (u.turn (.act k)).store).2.arena.find? c).isSome :=
    hresumes.isSome
  have hdead : (Action.runAll ks (u.turn (.act k)).store).2.arena.find? c = none :=
    Action.find?_runAll_eq_none hks' (k.atRest_run hk hrest) (h.dead hrest hk) hnew
  rw [hdead] at hlive
  cases hlive

/-- No turn changes what the walk is over. -/
theorem finish_after (u : Tour) (es : List Turn) : (u.after es).walk.finish = u.walk.finish := by
  induction es generalizing u with
  | nil => rfl
  | cons e es ih =>
    cases e with
    | act k => exact ih (u.turn (.act k))
    | next => exact (ih (u.turn .next)).trans Triples.finish_advance

end Tour

/-- However a walk along a ring has come to the connector `c`, when an operation erases `c` and
others follow before the next call, the walk is over if none of them makes an element at this
address. In any case it is over just when `c` is not in the ring again with something behind it that
fits. -/
theorem Reached.walk_ends_after_erasure {allowed : Settings → Prop} {made : List Address}
    {s : Store} {p : Pattern} {es : List Turn} {k : Action} {ks : List Action} {c : Address}
    (h : Reached allowed made s) (hp : p.anchor?.isSome) (levels : Access)
    (hes : Tour.Admissible (es ++ .act k :: ks.map .act))
    (hcut : ((s.tour p levels).after es).CutsAt k c) :
    (.ok (.made c) ∉ (Action.runAll ks ((s.tour p levels).after (es ++ [.act k])).store).1 →
      ((s.tour p levels).after (es ++ .act k :: ks.map .act)).Over) ∧
    (((s.tour p levels).after (es ++ .act k :: ks.map .act)).Over ↔
      ¬((s.tour p levels).after (es ++ .act k :: ks.map .act)).Resumes c) := by
  obtain ⟨⟨x, d⟩, ha⟩ := Option.isSome_iff_exists.1 hp
  obtain ⟨made', hrest⟩ := Tour.exists_atRest_after (u := s.tour p levels) h.atRest fun k hk =>
    hes k (List.mem_append_left _ hk)
  have hpattern : ((s.tour p levels).after es).walk.pattern = p :=
    congrArg (·.pattern) (Tour.finish_after (s.tour p levels) es)
  have hks : Tour.Admissible (.act k :: ks.map .act) := fun l hl =>
    hes l (List.mem_append_right _ hl)
  rw [Tour.after_append, Tour.after_append]
  exact hcut.over_iff hrest (hpattern ▸ ha) hks

/-- After the first call the arc that it returned is erased, and then another one, whose address a
new node gets. -/
def replacingTurns : List Turn :=
  [.next] ++ .act (.erase ⟨1, 5⟩) :: [.erase ⟨1, 6⟩, .addNode .const .lowest].map .act

/-- Nothing is made in the place of the first arc, so the walk is over, though an edge was left. -/
theorem Reached.walk_ends_after_erasure_sampleStore : Reached (· = .small) sampleMade sampleStore ∧
    Tour.Admissible replacingTurns ∧ (sampleTour.after [.next]).CutsAt (.erase ⟨1, 5⟩) ⟨1, 5⟩ ∧
    (Action.runAll [.erase ⟨1, 6⟩, .addNode .const .lowest]
      (sampleTour.after ([.next] ++ [.act (.erase ⟨1, 5⟩)])).store).1
      = [.ok (.erased [⟨1, 6⟩]), .ok (.made ⟨1, 6⟩)] ∧
    (sampleTour.after replacingTurns).Over := by
  have hes : Tour.Admissible replacingTurns := by
    simp [Tour.Admissible, replacingTurns, Action.Admissible, Access.inUse_lowest]
  have hcut : (sampleTour.after [.next]).CutsAt (.erase ⟨1, 5⟩) ⟨1, 5⟩ :=
    ⟨by decide +kernel, by decide +kernel⟩
  have hanswers : (Action.runAll [.erase ⟨1, 6⟩, .addNode .const .lowest]
      (sampleTour.after ([.next] ++ [.act (.erase ⟨1, 5⟩)])).store).1
      = [.ok (.erased [⟨1, 6⟩]), .ok (.made ⟨1, 6⟩)] := by
    decide +kernel
  have hnew : .ok (.made ⟨1, 5⟩) ∉ (Action.runAll [.erase ⟨1, 6⟩, .addNode .const .lowest]
      (sampleTour.after ([.next] ++ [.act (.erase ⟨1, 5⟩)])).store).1 := by
    rw [hanswers]
    decide
  have hends := reached_sampleStore.walk_ends_after_erasure
    (p := ⟨.fixed ⟨1, 1⟩, .any .unknown, .any .unknown⟩) rfl .highest hes hcut
  exact ⟨reached_sampleStore, hes, hcut, hanswers, hends.1 hnew⟩

/-- Two nodes, and three arcs from the one to the other. -/
def arcActions : List Action :=
  [.addNode .const .lowest, .addNode .const .lowest,
    .connect .commonArc ⟨1, 1⟩ ⟨1, 2⟩ .lowest, .connect .commonArc ⟨1, 1⟩ ⟨1, 2⟩ .lowest,
    .connect .commonArc ⟨1, 1⟩ ⟨1, 2⟩ .lowest]

def arcStore : Store := (Action.runAll arcActions (.ofSettings .small)).2

/-- A walk along the outgoing ring of the first node. -/
def arcTour : Tour := arcStore.tour ⟨.fixed ⟨1, 1⟩, .any .unknown, .any .unknown⟩ .highest

/-- The second arc that is returned is erased, and the next one that is made has its address. -/
def arcTurns : List Turn :=
  [.next, .next, .act (.erase ⟨1, 4⟩), .act (.connect .commonArc ⟨1, 1⟩ ⟨1, 2⟩ .lowest)]

/-- The new arc is in front of the ring, so the walk goes on from there and returns the first arc
once more. -/
theorem erased_connector_returned_again :
    (∃ made, Reached (· = .small) made arcStore) ∧ Tour.Admissible arcTurns ∧
    (arcTour.after [.next, .next]).CutsAt (.erase ⟨1, 4⟩) ⟨1, 4⟩ ∧
    ¬(arcTour.after arcTurns).Over ∧
    arcTour.returned (arcTurns ++ [.next, .next]) = [⟨1, 5⟩, ⟨1, 4⟩, ⟨1, 5⟩, ⟨1, 3⟩] := by
  have hadmissible : ∀ k ∈ arcActions, k.Admissible := by
    simp [arcActions, Action.Admissible, Access.inUse_lowest]
  have hreached := (@Reached.fresh (· = .small) _ rfl).runAll hadmissible
  have hturns : Tour.Admissible arcTurns := by
    simp [Tour.Admissible, arcTurns, Action.Admissible, Access.inUse_lowest]
  have hcut : (arcTour.after [.next, .next]).CutsAt (.erase ⟨1, 4⟩) ⟨1, 4⟩ :=
    ⟨by decide +kernel, by decide +kernel⟩
  have hgoing : ¬(arcTour.after arcTurns).Over := by
    rw [Tour.over_iff_finish]
    decide +kernel
  exact ⟨⟨_, hreached⟩, hturns, hcut, hgoing, by decide +kernel⟩

end SemanticNet
