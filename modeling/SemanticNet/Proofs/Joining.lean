import SemanticNet.Proofs.NamedConnectors

/-!
# Nested walks

A walk over quintuples is a nested one. While nothing changes it yields, for each triple of the
first three terms in turn, the marks of that triple's connector, and then stays at its end
(`Reached.quintuples_joined`). It needs no more moves of the outer walk than there are triples.
-/

namespace SemanticNet

/-- The triple together with the mark `κ` of its connector. -/
def Quintuple.joining (τ κ : Triple) : Quintuple := ⟨τ, κ.connector, κ.source⟩

/-- The pattern for the marks of the connector `c`. -/
def MarkedPattern.marksOf (p : MarkedPattern) (c : Address) : Pattern :=
  ⟨p.origin, p.mark, .fixed c⟩

/-- A pattern that names an element names its connector or an end of a ring to walk along. -/
theorem Pattern.isSome_shape?_iff {p : Pattern} :
    p.shape?.isSome ↔ p.anchor?.isSome ∨ ∃ c, p.connector = .fixed c := by
  obtain ⟨source, connector, target⟩ := p
  cases source <;> cases connector <;> cases target <;> simp [shape?, anchor?]

/-- The pattern for the marks of a connector names that connector. -/
theorem MarkedPattern.isSome_shape?_marksOf {p : MarkedPattern} {c : Address} :
    (p.marksOf c).shape?.isSome := by
  obtain ⟨main, mark, origin⟩ := p
  cases mark <;> cases origin <;> rfl

namespace Quintuples

variable {t : Arena} {w : Quintuples} {κ : Address → List Triple} {τs κs : List Triple}
  {qs : List Quintuple} {p : MarkedPattern} {levels : Access} {n : Nat}

/-! ## Whole walks -/

/-- The walk after some moves. -/
def moved (t : Arena) : Nat → Quintuples → Quintuples
  | 0, w => w
  | n + 1, w => moved t n (w.advance t).1

/-- While the arena stays as it is, the walk comes to these quintuples one after the other; then it
is at its end and stays there, with nothing for its current quintuple. -/
structure Yields (t : Arena) (w : Quintuples) (qs : List Quintuple) : Prop where
  goes : ∀ n q, qs[n]? = some q →
    (moved t (n + 1) w).done = false ∧ (moved t (n + 1) w).current = q
  ends : ∀ n, qs.length < n → (moved t n w).done = true ∧ (moved t n w).current = {}

theorem moved_of_done (h : w.done = true) : moved t n w = w := by
  induction n with
  | zero => rfl
  | succ n ih => rwa [moved, advance, if_pos h]

theorem yields_nil (h : (w.advance t).1.done = true ∧ (w.advance t).1.current = {}) :
    w.Yields t [] where
  goes n q hn := by simp at hn
  ends n hn := by
    obtain ⟨m, rfl⟩ := Nat.exists_eq_succ_of_ne_zero (Nat.ne_of_gt hn)
    rw [Nat.succ_eq_add_one, moved, moved_of_done h.1]
    exact h

theorem Yields.cons (h : (w.advance t).1.Yields t qs) (hd : (w.advance t).1.done = false) :
    w.Yields t ((w.advance t).1.current :: qs) where
  goes n q hn := by
    rw [moved]
    cases n with
    | zero =>
      obtain rfl := Option.some.inj hn
      exact ⟨hd, rfl⟩
    | succ n => exact h.goes n q hn
  ends n hn := by
    cases n with
    | zero => simp at hn
    | succ n =>
      rw [moved]
      exact h.ends n (by simpa using hn)

/-- The quintuples that are taken are the first ones that are left. -/
theorem Yields.take_eq (h : w.Yields t qs) (n : Nat) : (w.take t n).1 = qs.take n := by
  induction n generalizing w qs with
  | zero => rfl
  | succ n ih =>
    cases qs with
    | nil =>
      obtain ⟨hd, -⟩ := h.ends 1 Nat.zero_lt_one
      have hend : (w.advance t).1.done = true := hd
      simp [take, hend]
    | cons q qs =>
      obtain ⟨hd, hcurrent⟩ := h.goes 0 q rfl
      have hrest : (w.advance t).1.Yields t qs :=
        ⟨fun m q' hm => h.goes (m + 1) q' hm, fun m hm => h.ends (m + 1) (by simpa using hm)⟩
      have hgoing : (w.advance t).1.done = false := hd
      have hq : (w.advance t).1.current = q := hcurrent
      simp [take, hgoing, ih hrest, hq]

/-! ## What is left of a walk -/

/-- The triples of a list with the marks `κ` of their connectors. -/
def pairs (κ : Address → List Triple) (τs : List Triple) : List Quintuple :=
  τs.flatMap fun τ => (κ τ.connector).map (.joining τ)

theorem length_pairs_le (h : ∀ c, (κ c).length ≤ n) : (pairs κ τs).length ≤ τs.length * n := by
  induction τs with
  | nil => exact Nat.zero_le _
  | cons τ τs ih =>
    have hfirst := h τ.connector
    rw [pairs] at ih ⊢
    rw [List.flatMap_cons, List.length_append, List.length_map, List.length_cons,
      Nat.add_one_mul]
    omega

/-- What is left of a walk: marks `κs` of the current triple, and then the triples `τs`. Each
connector `c` has the marks `κ c`. -/
structure Left (t : Arena) (κ : Address → List Triple) (w : Quintuples) (κs τs : List Triple) :
    Prop where
  going : w.done = false
  main : w.main.Yields t τs
  marks : ∀ m, w.marks = some m → m.Yields t κs
  unmarked : w.marks = none → κs = []
  marksOf : ∀ c, Triples.Yields t
    { pattern := ⟨w.origin, w.mark, .fixed c⟩, levels := w.main.levels } (κ c)

/-- The quintuples that are left. -/
def remaining (κ : Address → List Triple) (w : Quintuples) (κs τs : List Triple) :
    List Quintuple :=
  κs.map (.joining w.main.current) ++ pairs κ τs

theorem levels_advance (w : Triples) : (w.advance t).1.levels = w.levels :=
  congrArg (·.levels) (Triples.finish_advance (w := w) (t := t))

/-- With no marks left there is no next one. -/
theorem Left.nextMark?_nil (h : w.Left t κ [] τs) : (w.nextMark? t).1 = none := by
  unfold nextMark?
  cases hm : w.marks with
  | none => rfl
  | some m =>
    have hend := (h.marks m hm).advance_nil
    simp only [hend, if_true]

theorem Left.nextMark?_cons {k : Triple} (h : w.Left t κ (k :: κs) τs) :
    ∃ m, (w.nextMark? t).1 = some m ∧ m.current = k ∧ m.Yields t κs := by
  cases hm : w.marks with
  | none => cases h.unmarked hm
  | some m =>
    obtain ⟨hd, hcurrent, hrest⟩ := (h.marks m hm).advance_cons
    refine ⟨(m.advance t).1, ?_, hcurrent, hrest⟩
    simp only [nextMark?, hm, hd]
    rfl

/-- One move of a walk that has enough fuel comes to the first quintuple that is left. -/
theorem Left.advanceFrom (h : w.Left t κ κs τs) (hn : τs.length < n) :
    match remaining κ w κs τs with
    | [] => (w.advanceFrom t n).1.done = true ∧ (w.advanceFrom t n).1.current = {}
    | q :: qs => (w.advanceFrom t n).1.current = q ∧ ∃ κs' τs',
        (w.advanceFrom t n).1.Left t κ κs' τs' ∧
        remaining κ (w.advanceFrom t n).1 κs' τs' = qs ∧ τs'.length ≤ τs.length := by
  induction n generalizing w κs τs with
  | zero => omega
  | succ n ih =>
    cases κs with
    | cons k κs =>
      obtain ⟨m, hnext, rfl, hrest⟩ := h.nextMark?_cons
      rw [Quintuples.advanceFrom]
      generalize w.nextMark? t = next at hnext
      obtain ⟨next, scans⟩ := next
      obtain rfl : next = some m := hnext
      show _ ∧ _
      refine ⟨rfl, κs, τs, ⟨h.going, h.main, ?_, ?_, h.marksOf⟩, rfl, le_rfl⟩
      · intro m' hm'
        obtain rfl : m = m' := Option.some.inj hm'
        exact hrest
      · intro hnone
        cases hnone
    | nil =>
      have hnext := h.nextMark?_nil
      rw [Quintuples.advanceFrom]
      generalize w.nextMark? t = next at hnext
      obtain ⟨next, scans⟩ := next
      obtain rfl : next = none := hnext
      cases τs with
      | nil =>
        have hend := h.main.advance_nil
        simp only [hend, if_true]
        exact ⟨rfl, rfl⟩
      | cons τ τs =>
        obtain ⟨hd, hcurrent, hrest⟩ := h.main.advance_cons
        -- the marks of the next triple are begun
        have hleft : Left t κ { w with
            main := (w.main.advance t).1
            marks := some { w with main := (w.main.advance t).1 }.marksOf }
            (κ τ.connector) τs := by
          refine ⟨h.going, hrest, ?_, ?_, ?_⟩
          · intro m hm
            obtain rfl := Option.some.inj hm
            have hmarks := h.marksOf τ.connector
            rw [← levels_advance (t := t) w.main, ← hcurrent] at hmarks
            rw [← hcurrent]
            exact hmarks
          · intro hnone
            cases hnone
          · intro c
            have hmarks := h.marksOf c
            rwa [← levels_advance (t := t) w.main] at hmarks
        have hrun := ih hleft (by simpa using hn)
        have hremaining : remaining κ { w with
            main := (w.main.advance t).1
            marks := some { w with main := (w.main.advance t).1 }.marksOf }
            (κ τ.connector) τs = remaining κ w [] (τ :: τs) := by
          rw [remaining, remaining, pairs, pairs, List.flatMap_cons, List.map_nil, List.nil_append,
            ← hcurrent]
        rw [hremaining] at hrun
        simp only [hd, Bool.false_eq_true, if_false]
        split
        next hnil =>
          rw [hnil] at hrun
          exact hrun
        next q qs hcons =>
          rw [hcons] at hrun
          obtain ⟨hq, κs', τs', hleft', heq, hlen⟩ := hrun
          exact ⟨hq, κs', τs', hleft', heq, hlen.trans (Nat.le_succ _)⟩

theorem Left.advance_eq (h : w.Left t κ κs τs) :
    w.advance t = w.advanceFrom t (t.engaged + 2) := by
  rw [advance, h.going]
  rfl

/-- A walk yields what is left of it. -/
theorem Left.yields (h : w.Left t κ κs τs) (hτs : τs.length ≤ t.engaged) :
    w.Yields t (remaining κ w κs τs) := by
  generalize hqs : remaining κ w κs τs = qs
  induction qs generalizing w κs τs with
  | nil =>
    have hstep := h.advanceFrom (n := t.engaged + 2) (by omega)
    rw [← h.advance_eq, hqs] at hstep
    exact yields_nil hstep
  | cons q qs ih =>
    have hstep := h.advanceFrom (n := t.engaged + 2) (by omega)
    rw [← h.advance_eq, hqs] at hstep
    obtain ⟨rfl, κs', τs', hleft, heq, hlen⟩ := hstep
    exact (ih hleft (hlen.trans hτs) heq).cons hleft.going

/-- A walk can be opened when its first three terms name an element and its marks do not come from
nowhere. -/
theorem open?_eq_ok_iff : open? p levels = .ok w ↔
    p.main.shape?.isSome ∧ (p.mark.fixed? ≠ some .empty ∧ p.origin.fixed? ≠ some .empty) ∧
      w = { main := { pattern := p.main, levels }, mark := p.mark, origin := p.origin } := by
  rw [open?, Triples.open?]
  cases p.main.shape?.isSome with
  | false => simp [bind, Except.bind]
  | true =>
    by_cases hnamed : p.mark.fixed? = some .empty ∨ p.origin.fixed? = some .empty
    · simp [bind, Except.bind, hnamed, throw, throwThe, MonadExceptOf.throw]
      tauto
    · obtain ⟨hmark, horigin⟩ := not_or.1 hnamed
      simp [bind, Except.bind, pure, Except.pure, hmark, horigin, eq_comm]

end Quintuples

namespace Store

variable {s : Store} {made : List Address} {p : MarkedPattern} {levels : Access}
  {τs : List Triple} {w : Quintuples}

/-- The triples of a walk over the pattern, none if it can not be opened. -/
def walk (s : Store) (p : Pattern) (levels : Access) : List Triple :=
  (s.found p levels).toOption.getD []

/-- A walk of the store over the pattern can be opened, and it yields these triples. They are
triples that fit, each connector once. -/
structure Walks (s : Store) (p : Pattern) (levels : Access) (τs : List Triple) : Prop where
  opened : Triples.open? p levels = .ok { pattern := p, levels }
  yields : Triples.Yields s.arena { pattern := p, levels } τs
  found : s.found p levels = .ok τs
  fits : ∀ τ ∈ τs, p.Fits s.arena levels τ
  nodup : (τs.map (·.connector)).Nodup

theorem WalksRing.walk_eq {p : Pattern} (h : s.WalksRing made p levels τs) :
    s.walk p levels = τs := by
  rw [walk, h.found]
  rfl

theorem Walks.walk_eq {p : Pattern} (h : s.Walks p levels τs) : s.walk p levels = τs := by
  rw [walk, h.found]
  rfl

theorem AtRest.walksRing {p : Pattern} (h : s.AtRest made) (hp : p.anchor?.isSome)
    (levels : Access) : s.WalksRing made p levels (s.walk p levels) := by
  obtain ⟨τs, hτs⟩ := h.exists_walksRing hp levels
  rwa [hτs.walk_eq]

/-- Each connector is an element of its own. -/
theorem AtRest.length_le_engaged {p : Pattern} (h : s.AtRest made)
    (hfits : ∀ τ ∈ τs, p.Fits s.arena levels τ) (hnodup : (τs.map (·.connector)).Nodup) :
    τs.length ≤ s.arena.engaged := by
  have hlen := h.sound.tidy.length_le_engaged hnodup fun c hc => by
    obtain ⟨τ, hτ, rfl⟩ := List.mem_map.1 hc
    obtain ⟨e, he, -⟩ := (hfits τ hτ).joins
    exact Option.isSome_of_eq_some he
  rwa [List.length_map] at hlen

/-- Every walk that can be opened yields triples that fit, each connector once. -/
theorem AtRest.walks {p : Pattern} (h : s.AtRest made) (hp : p.shape?.isSome) (levels : Access) :
    s.Walks p levels (s.walk p levels) := by
  have hopen : Triples.open? p levels = .ok { pattern := p, levels } := if_pos hp
  rcases Pattern.isSome_shape?_iff.1 hp with hring | ⟨c, hc⟩
  · have hwalk := h.walksRing hring levels
    exact ⟨hopen, hwalk.yields, hwalk.found, fun τ => (hwalk.mem_iff τ).1, hwalk.nodup⟩
  · let w : Triples := { pattern := p, levels }
    have hyields : w.Yields s.arena (w.single? s.arena c).toList := Triples.yields_single hc rfl
    have hfits : ∀ τ ∈ (w.single? s.arena c).toList, p.Fits s.arena levels τ := fun τ hτ =>
      ((Triples.single?_eq_some_iff hc).1 (Option.mem_toList.1 hτ)).1
    have hnodup : ((w.single? s.arena c).toList.map (·.connector)).Nodup := by
      cases w.single? s.arena c <;> simp
    have hfound := found_of_yields hopen hyields
      (Nat.lt_succ_of_le (h.length_le_engaged hfits hnodup))
    have hwalk : s.Walks p levels (w.single? s.arena c).toList :=
      ⟨hopen, hyields, hfound, hfits, hnodup⟩
    rwa [hwalk.walk_eq]

theorem AtRest.length_walk_le {p : Pattern} (h : s.AtRest made) (hp : p.shape?.isSome) :
    (s.walk p levels).length ≤ s.arena.engaged :=
  h.length_le_engaged (h.walks hp levels).fits (h.walks hp levels).nodup

/-- Each triple of the main walk with each mark of its connector. -/
def joined (s : Store) (p : MarkedPattern) (levels : Access) : List Quintuple :=
  Quintuples.pairs (fun c => s.walk (p.marksOf c) levels) (s.walk p.main levels)

theorem mem_joined {q : Quintuple} : q ∈ s.joined p levels ↔ q.main ∈ s.walk p.main levels ∧
    ∃ κ ∈ s.walk (p.marksOf q.main.connector) levels, q = .joining q.main κ := by
  simp only [joined, Quintuples.pairs, List.mem_flatMap, List.mem_map]
  constructor
  · intro h
    obtain ⟨τ, hτ, κ, hκ, rfl⟩ := h
    exact ⟨hτ, κ, hκ, rfl⟩
  · intro h
    obtain ⟨hτ, κ, hκ, hq⟩ := h
    exact ⟨q.main, hτ, κ, hκ, hq.symm⟩

/-- A walk over quintuples that can be opened yields the nested walk. -/
theorem AtRest.yields_joined (h : s.AtRest made) (hopen : Quintuples.open? p levels = .ok w) :
    w.Yields s.arena (s.joined p levels) := by
  obtain ⟨hmain, -, rfl⟩ := Quintuples.open?_eq_ok_iff.1 hopen
  let w : Quintuples :=
    { main := { pattern := p.main, levels }, mark := p.mark, origin := p.origin }
  have hleft : w.Left s.arena (fun c => s.walk (p.marksOf c) levels) [] (s.walk p.main levels) := by
    refine ⟨rfl, (h.walks hmain levels).yields, ?_, fun _ => rfl, fun c => ?_⟩
    · intro m hm
      cases hm
    · exact (h.walks MarkedPattern.isSome_shape?_marksOf levels).yields
  exact hleft.yields (h.length_walk_le hmain)

/-- A walk over quintuples takes the first ones of the nested walk, and counts what it looks at. -/
theorem AtRest.on_quintuples (h : s.AtRest made) (hopen : Quintuples.open? p levels = .ok w)
    (limit : Option Nat) : ∃ n, (quintuples p levels limit).on s
      = (.ok ((s.joined p levels).take (limit.getD (s.tripleBound * s.tripleBound))),
        s.noteScans n) := by
  let bound := limit.getD (s.tripleBound * s.tripleBound)
  have htake : (w.take s.arena bound).1 = (s.joined p levels).take bound :=
    (h.yields_joined hopen).take_eq bound
  refine ⟨(w.take s.arena bound).2, ?_⟩
  rw [quintuples, hopen, ← htake]
  rfl

/-- There are fewer quintuples than a walk looks for. -/
theorem AtRest.length_joined_le (h : s.AtRest made) (hmain : p.main.shape?.isSome)
    (levels : Access) : (s.joined p levels).length ≤ s.tripleBound * s.tripleBound := by
  have hwalk : ∀ {q : Pattern}, q.shape?.isSome → (s.walk q levels).length ≤ s.tripleBound :=
    fun hq => Nat.le_succ_of_le (h.length_walk_le hq)
  exact (Quintuples.length_pairs_le fun _ => hwalk MarkedPattern.isSome_shape?_marksOf).trans
    (Nat.mul_le_mul_right _ (hwalk hmain))

/-- A walk over quintuples without a limit takes all of them. -/
theorem AtRest.on_quintuples_all (h : s.AtRest made)
    (hopen : Quintuples.open? p levels = .ok w) :
    ∃ n, (quintuples p levels none).on s = (.ok (s.joined p levels), s.noteScans n) := by
  obtain ⟨n, hrun⟩ := h.on_quintuples hopen none
  have hmain := (Quintuples.open?_eq_ok_iff.1 hopen).1
  refine ⟨n, ?_⟩
  rwa [Option.getD_none, List.take_of_length_le (h.length_joined_le hmain levels)] at hrun

/-- What is asked of a pattern whose walk is along rings: one of the ends of the triples is named,
both connectors are open, and the marks do not come from nowhere. -/
structure WalksRings (p : MarkedPattern) : Prop where
  main : p.main.anchor?.isSome
  mark : p.mark.fixed? = none
  origin : p.origin.fixed? ≠ some .empty

theorem WalksRings.anchor? (hp : WalksRings p) (c : Address) : (p.marksOf c).anchor?.isSome := by
  have hmark := hp.mark
  obtain ⟨main, mark, origin⟩ := p
  cases mark with
  | fixed a => cases hmark
  | any m => cases origin <;> rfl

theorem WalksRings.open? (hp : WalksRings p) (levels : Access) :
    Quintuples.open? p levels
      = .ok { main := { pattern := p.main, levels }, mark := p.mark, origin := p.origin } :=
  Quintuples.open?_eq_ok_iff.2
    ⟨Pattern.isSome_shape?_iff.2 (.inl hp.main), ⟨by simp [hp.mark], hp.origin⟩, rfl⟩

end Store

/-- Whatever was reached, a walk over quintuples that can be opened is a nested walk. It yields, for
each triple of the walk over the first three terms and each triple of the walk over the marks of its
connector, the one joined with the other, in this order and nothing else, and then it stays at its
end. -/
theorem Reached.quintuples_joined {allowed : Settings → Prop} {made : List Address} {s : Store}
    {p : MarkedPattern} {levels : Access} {w : Quintuples} (h : Reached allowed made s)
    (hopen : Quintuples.open? p levels = .ok w) :
    ∃ (τs : List Triple) (κ : Address → List Triple), s.Walks p.main levels τs ∧
      (∀ c, s.Walks (p.marksOf c) levels (κ c)) ∧
      w.Yields s.arena (τs.flatMap fun τ => (κ τ.connector).map (.joining τ)) := by
  have hmain := (Quintuples.open?_eq_ok_iff.1 hopen).1
  exact ⟨s.walk p.main levels, fun c => s.walk (p.marksOf c) levels, h.atRest.walks hmain levels,
    fun c => h.atRest.walks MarkedPattern.isSome_shape?_marksOf levels,
    h.atRest.yields_joined hopen⟩

/-- In the sample, the connectors that go out of the first node, marked by the arc from the link. -/
def samplePattern : MarkedPattern where
  main := ⟨.fixed ⟨1, 1⟩, .any .unknown, .any .unknown⟩
  mark := .fixed ⟨1, 6⟩
  origin := .any .unknown

theorem Reached.quintuples_joined_sampleStore : Reached (· = .small) sampleMade sampleStore ∧
    ∃ w, Quintuples.open? samplePattern .highest = .ok w ∧
      sampleStore.joined samplePattern .highest = [⟨⟨⟨1, 1⟩, ⟨1, 4⟩, ⟨1, 2⟩⟩, ⟨1, 6⟩, ⟨1, 3⟩⟩] ∧
      ∃ (τs : List Triple) (κ : Address → List Triple),
        sampleStore.Walks samplePattern.main .highest τs ∧
        (∀ c, sampleStore.Walks (samplePattern.marksOf c) .highest (κ c)) ∧
        w.Yields sampleStore.arena (τs.flatMap fun τ => (κ τ.connector).map (.joining τ)) := by
  refine ⟨reached_sampleStore, _, rfl, by decide +kernel, ?_⟩
  exact reached_sampleStore.quintuples_joined (p := samplePattern) rfl

end SemanticNet
