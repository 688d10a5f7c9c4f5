import SemanticNet.Proofs.Reporting

/-!
# The passes of an erasure

What a sweep has put into order is freed in passes, and what is met too early waits for the next
one. Nothing in this process bounds the number of passes. It comes to its end all the same: among
the elements that wait there is always one without connectors, the one that was made last, and the
next pass frees it (`Pending.frees`). So there are no more passes than elements
(`Reached.erase_ends`).
-/

namespace SemanticNet

namespace Store

variable {s s' s₁ : Store} {a x : Address} {as ps ws made : List Address} {m n : Nat}

/-- What waits after some passes. With nothing that waits a pass does nothing. -/
def releasePasses : Nat → List Address → Step Store (List Address)
  | 0, as => return as
  | n + 1, as => do releasePasses n (← releasePass as)

/-- The store in which the passes of an erasure begin, with the marks of the sweep. -/
def swept (s : Store) (x : Address) : Store := { s with arena := (s.arena.sweep x).arena }

/-- There is an element of `as` without connectors, and a pass over `as` frees it, so that fewer
wait. -/
def Frees (s : Store) (as : List Address) : Prop :=
  ∃ a ∈ as, (∃ e, s.arena.find? a = some e ∧ e.hasIncident = false) ∧
    ∃ ws s', (releasePass as).on s = (.ok ws, s') ∧ s'.isLive a = false ∧ a ∉ ws ∧
      ws.length < as.length

/-- The passes over `as` from `s` on, however many: none fails, each that finds something to do
frees an element, and only the first ones, no more than there are elements, find something to do.
They leave `s'` behind, as do passes with a bound that is not less. -/
structure PassesEnd (s : Store) (as : List Address) (s' : Store) : Prop where
  each : ∀ n, ∃ ws s₁, (releasePasses n as).on s = (.ok ws, s₁) ∧
    (ws ≠ [] → n < as.length ∧ s₁.Frees ws)
  last : (releasePasses as.length as).on s = (.ok [], s')
  bounded : ∀ m, as.length ≤ m → (releaseAll m as).on s = (.ok (), s')

theorem on_releasePasses_nil : (releasePasses n []).on s = (.ok [], s) := by
  induction n with
  | zero => rfl
  | succ n ih =>
    have hpass : (releasePass []).on s = (.ok [], s) := rfl
    rw [releasePasses, Step.on_bind, hpass]
    exact ih

/-- A bound that the passes do not come to makes no difference. -/
theorem releaseAll_of_passes (h : (releasePasses n as).on s = (.ok [], s')) (hm : n ≤ m) :
    (releaseAll m as).on s = (.ok (), s') := by
  induction n generalizing s as m with
  | zero =>
    obtain ⟨rfl, rfl⟩ : as = [] ∧ s = s' := by simpa [releasePasses] using h
    cases m <;> rfl
  | succ n ih =>
    obtain ⟨m, rfl⟩ := Nat.exists_eq_add_of_le' (Nat.le_trans (Nat.succ_pos n) hm)
    cases as with
    | nil =>
      rw [on_releasePasses_nil] at h
      cases h
      rfl
    | cons a as =>
      rw [releasePasses, Step.on_bind] at h
      rw [Store.releaseAll, Machinery.releaseAll, Step.on_bind]
      · generalize (releasePass (a :: as)).on s = r at h
        obtain ⟨r, s₁⟩ := r
        cases r with
        | error f => simp at h
        | ok ws => exact ih h (Nat.le_of_succ_le_succ hm)
      · simp

/-- A pass over what hangs on an element frees an element on which nothing hangs. -/
theorem Pending.frees (h : s.Pending x ps) (hs : s.Sound made) : s.Frees ps := by
  obtain ⟨a, ha, hfree⟩ := h.exists_free hs
  obtain ⟨e, he⟩ := Option.isSome_iff_exists.1 (h.live a ha)
  obtain ⟨ws, s', hrun, hpassed⟩ := hs.releasePass h.nodup h.live
  have haw : a ∉ ws := hpassed.freed a ha hfree
  refine ⟨a, ha, ⟨e, he, ?_⟩, ws, s', hrun, ?_, haw, h.length_lt hs hpassed⟩
  · rw [← Bool.not_eq_true, hs.wired.hasIncident_iff he]
    exact fun hex => hex.elim hfree
  · rw [isLive, Arena.isLive, ← Bool.not_eq_true, hpassed.less.arena.isSome_find?]
    exact fun hlive => hlive.1 (mem_filter_of_not_mem ha haw)

/-- After any number of passes over what hangs on an element, what waits still hangs on it, and each
pass has cost one element at least. -/
theorem Sound.on_releasePasses (h : s.Sound made) (hp : ps = [] ∨ s.Pending x ps) (n : Nat) :
    ∃ ws s', (releasePasses n ps).on s = (.ok ws, s') ∧ s'.Sound made ∧
      (ws = [] ∨ s'.Pending x ws) ∧ (ws ≠ [] → n + ws.length ≤ ps.length) := by
  induction n generalizing s ps with
  | zero => exact ⟨ps, s, rfl, h, hp, fun _ => by omega⟩
  | succ n ih =>
    rcases hp with rfl | hp
    · exact ⟨[], s, on_releasePasses_nil, h, .inl rfl, fun hne => absurd rfl hne⟩
    · obtain ⟨ws, s₁, hrun, hpassed⟩ := h.releasePass hp.nodup hp.live
      have hshorter := hp.length_lt h hpassed
      -- either the element that all hangs on still waits, or it went, and all with it
      have hrest : ws = [] ∨ s₁.Pending x ws := by
        by_cases hx : x ∈ ws
        · exact .inr (hp.rest hpassed hx)
        · exact .inl (hp.eq_nil hpassed hx)
      obtain ⟨vs, s', hrun', hsound, hpending, hlen⟩ := ih hpassed.sound hrest
      refine ⟨vs, s', ?_, hsound, hpending, fun hne => ?_⟩
      · rw [releasePasses, Step.on_bind, hrun]
        exact hrun'
      · have := hlen hne
        omega

/-- The passes over what hangs on an element come to their end. -/
theorem Pending.passesEnd (h : s.Pending x ps) (hs : s.Sound made) : ∃ s', s.PassesEnd ps s' := by
  obtain ⟨ws, s', hrun, -, -, hlen⟩ := hs.on_releasePasses (.inr h) ps.length
  have hnil : ws = [] := by
    by_contra hne
    have := hlen hne
    have := List.length_pos_iff.2 hne
    omega
  subst hnil
  refine ⟨s', fun n => ?_, hrun, fun m hm => releaseAll_of_passes hrun hm⟩
  obtain ⟨ws, s₁, hrun₁, hsound₁, hpending₁, hlen₁⟩ := hs.on_releasePasses (.inr h) n
  refine ⟨ws, s₁, hrun₁, fun hne => ⟨?_, (hpending₁.resolve_left hne).frees hsound₁⟩⟩
  have := hlen₁ hne
  have := List.length_pos_iff.2 hne
  omega

end Store

namespace Reached

variable {allowed : Settings → Prop} {made : List Address} {s : Store} {x : Address}

/-- Whatever was reached, the passes of an erasure come to their end: as long as something waits
there is an element without connectors among it, which the next pass frees. The erasure answers with
the order that they went through. -/
theorem erase_ends (h : Reached allowed made s) (hx : s.isLive x = true) :
    ∃ order s', (Store.erase x).on s = (.ok order, s') ∧
      (s.arena.sweep x).order = .ok order ∧ (s.swept x).PassesEnd order s' := by
  have hrest := h.atRest
  obtain ⟨e, he⟩ := Option.isSome_iff_exists.1 hx
  have hcalm := hrest.calm x e he
  obtain ⟨order, hswept⟩ := Arena.sweep_spec hrest.sound.tidy hrest.sound.wired hrest.calm hx
  have htidy : (s.arena.sweep x).arena.Tidy :=
    ((Arena.parallel_of_update fun t a f ht => ht.update a f).sweep
      ⟨rfl, hrest.sound.tidy⟩).2.2.2
  have hpending : (s.swept x).Pending x order := Store.pending_swept hswept hx
  obtain ⟨s', hpasses⟩ := hpending.passesEnd (hrest.swept htidy hswept)
  refine ⟨order, s', ?_, hswept.order_eq, hpasses⟩
  have hrun := hpasses.bounded order.length le_rfl
  simp only [Machinery.erase, Step.on_bind, Step.on_ask, Arena.fetch, he, hcalm, Bool.false_eq_true,
    if_false, Store.on_onArena, Step.on_modifyGet, Step.on_tryCatch, Machinery.releaseSwept,
    hswept.order_eq, show { s with arena := (s.arena.sweep x).arena } = s.swept x from rfl, hrun,
    Step.on_pure]

/-- In the store with an arc on an arc, both from one node, the first pass over what hangs on that
node frees the outer arc only, and the others wait for a second pass. -/
theorem erase_ends_spanningStore : spanningStore.isLive ⟨1, 1⟩ = true ∧
    ((Store.releasePasses 1 [⟨1, 3⟩, ⟨1, 4⟩, ⟨1, 1⟩]).on (spanningStore.swept ⟨1, 1⟩)).1
      = .ok [⟨1, 3⟩, ⟨1, 1⟩] ∧
    ∃ order s', (Store.erase ⟨1, 1⟩).on spanningStore = (.ok order, s') ∧
      (spanningStore.arena.sweep ⟨1, 1⟩).order = .ok order ∧
      (spanningStore.swept ⟨1, 1⟩).PassesEnd order s' := by
  have hadmissible : ∀ k ∈ spanningActions, k.Admissible := by
    simp [spanningActions, Action.Admissible, Access.inUse_lowest]
  have hreached : Reached (fun _ => True) _ spanningStore :=
    (@Reached.fresh (fun _ => True) .small trivial).runAll hadmissible
  have hlive : spanningStore.isLive ⟨1, 1⟩ = true := by decide +kernel
  have hfirst : ((Store.releasePasses 1 [⟨1, 3⟩, ⟨1, 4⟩, ⟨1, 1⟩]).on (spanningStore.swept ⟨1, 1⟩)).1
      = .ok [⟨1, 3⟩, ⟨1, 1⟩] := by
    decide +kernel
  exact ⟨hlive, hfirst, hreached.erase_ends hlive⟩

end Reached

end SemanticNet
