import SemanticNet.Proofs.Runs

/-!
# The order in which erased elements are reported

An erasure answers with what it erased, in the order that the sweep has found it. A connector is
reported before an end of it that is erased as well, unless its other end is erased and has this end
hanging on it (`Reached.erase_order`). The exception does occur: then the sweep may come across the
connector first at the other end, and reports it late (`erase_order_violated`).
-/

namespace SemanticNet

namespace Arena

variable {t : Arena} {a b c x y : Address} {made order : List Address}

/-- What hangs on each other is the same. -/
theorem Hanging.antisymm (h : t.Hanging x y) (h' : t.Hanging y x) (hw : t.Wired made) : y = x := by
  rcases h.newer hw with rfl | hlt
  · rfl
  · rcases h'.newer hw with rfl | hlt'
    · rfl
    · exact absurd hlt' (Nat.lt_asymm hlt)

/-- A connector has no more than two ends. -/
theorem Touches.eq_or_eq (ha : t.Touches c a) (hb : t.Touches c b) (hab : a ≠ b)
    (hy : t.Touches c y) : y = a ∨ y = b := by
  obtain ⟨e, k, he, hk, ha⟩ := ha
  obtain ⟨e', k', he', hk', hb⟩ := hb
  obtain ⟨e'', k'', he'', hk'', hy⟩ := hy
  obtain rfl := Option.some.inj (he.symm.trans he')
  obtain rfl := Option.some.inj (he.symm.trans he'')
  obtain rfl := Option.some.inj (hk.symm.trans hk')
  obtain rfl := Option.some.inj (hk.symm.trans hk'')
  grind

/-- In a list in order a connector comes before an end of it from which no sweep can have come to
the other end. -/
theorem idxOf_lt_or_spans (hw : t.Wired made)
    (horder : order.Pairwise fun y c => t.Touches c y → t.Spans x c y) (hc : c ∈ order)
    (hy : y ∈ order) (hcy : t.Touches c y) : order.idxOf c < order.idxOf y ∨ t.Spans x c y := by
  rw [or_iff_not_imp_left]
  intro hle
  have hne : c ≠ y := by
    rintro rfl
    exact (Hanging.self (t := t)).not_touches hw hcy
  have hlt : order.idxOf y < order.idxOf c :=
    lt_of_le_of_ne (not_lt.1 hle) fun heq => hne (((List.idxOf_inj hy).1 heq).symm)
  have := List.pairwise_iff_getElem.1 horder _ _ (List.idxOf_lt_length_iff.2 hy)
    (List.idxOf_lt_length_iff.2 hc) hlt
  rw [List.getElem_idxOf, List.getElem_idxOf] at this
  exact this hcy

/-- One of the ends of a connector among what hangs on `x` is not spanned. -/
theorem Hanging.exists_not_spans (h : t.Hanging x c) (hcx : c ≠ x) (hw : t.Wired made) :
    ∃ y, t.Hanging x y ∧ t.Touches c y ∧ ¬t.Spans x c y := by
  cases h with
  | self => exact absurd rfl hcx
  | @touching _ y hy hc =>
    by_cases hspan : t.Spans x c y
    · -- the other end has `y` hanging on it, so it does not hang on `y`
      obtain ⟨z, hzy, hz, hhang, hcz⟩ := hspan
      refine ⟨z, hz, hcz, ?_⟩
      rintro ⟨z', hz'z, -, hhang', hcz'⟩
      obtain rfl : z' = y := (hc.eq_or_eq hcz (Ne.symm hzy) hcz').resolve_right hz'z
      exact hzy (hhang'.antisymm hhang hw)
    · exact ⟨y, hy, hc, hspan⟩

end Arena

namespace Store

variable {s s' : Store} {x : Address} {e : Element} {order : List Address}

/-- An erasure reports the order of its sweep. -/
theorem order_of_erase (he : s.arena.find? x = some e) (hcalm : e.erasing = false)
    (hrun : (erase x).on s = (.ok order, s')) : (s.arena.sweep x).order = .ok order := by
  simp only [Machinery.erase, Step.on_bind, Step.on_ask, Arena.fetch, he, hcalm,
    Bool.false_eq_true, if_false, on_onArena, Step.on_modifyGet, Step.on_tryCatch,
    Machinery.releaseSwept] at hrun
  cases ho : (s.arena.sweep x).order with
  | error f => simp [ho] at hrun
  | ok as =>
    simp only [ho] at hrun
    generalize (releaseAll as.length as).on { s with arena := (s.arena.sweep x).arena } = r at hrun
    obtain ⟨ra, s₁⟩ := r
    cases ra with
    | error f => simp at hrun
    | ok _ => simpa using congrArg Prod.fst hrun

end Store

namespace Reached

variable {allowed : Settings → Prop} {made : List Address} {s : Store} {x : Address}

/-- An erasure reports a connector before those of its ends that it erases as well, unless it erases
the other end, too, and this end hangs on that one. So every connector but the erased element itself
comes before one of its ends. -/
theorem erase_order (h : Reached allowed made s) (hx : s.isLive x = true) :
    ∃ order s', (Store.erase x).on s = (.ok order, s') ∧
      (∀ c ∈ order, ∀ y ∈ order, s.arena.Touches c y →
        order.idxOf c < order.idxOf y ∨ s.arena.Spans x c y) ∧
      ∀ c ∈ order, c ≠ x →
        ∃ y ∈ order, s.arena.Touches c y ∧ order.idxOf c < order.idxOf y := by
  have hw := h.atRest.sound.wired
  obtain ⟨e, he⟩ := Option.isSome_iff_exists.1 hx
  obtain ⟨reported, s', hrun, -, -, -, -, hmem, -⟩ := h.atRest.erase hx
  obtain ⟨order, hswept⟩ := Arena.sweep_spec h.atRest.sound.tidy hw h.atRest.calm hx
  -- the order that is reported is the one of the sweep
  have heq := Store.order_of_erase he (h.atRest.calm x e he) hrun
  rw [hswept.order_eq] at heq
  obtain rfl := Except.ok.inj heq
  have hbefore : ∀ c ∈ order, ∀ y ∈ order, s.arena.Touches c y →
      order.idxOf c < order.idxOf y ∨ s.arena.Spans x c y := fun c hc y hy =>
    Arena.idxOf_lt_or_spans hw hswept.ordered hc hy
  refine ⟨order, s', hrun, hbefore, fun c hc hcx => ?_⟩
  obtain ⟨y, hy, hcy, hspan⟩ := ((hmem c).1 hc).exists_not_spans hcx hw
  exact ⟨y, (hmem y).2 hy, hcy, (hbefore c hc y ((hmem y).2 hy) hcy).resolve_right hspan⟩

/-- In the sample the arc from the link comes before the edge that it is on, and that before the
node. -/
theorem erase_order_sampleStore : sampleStore.isLive ⟨1, 1⟩ = true ∧
    ∃ order s', (Store.erase ⟨1, 1⟩).on sampleStore = (.ok order, s') ∧
      (∀ c ∈ order, ∀ y ∈ order, sampleStore.arena.Touches c y →
        order.idxOf c < order.idxOf y ∨ sampleStore.arena.Spans ⟨1, 1⟩ c y) ∧
      ∀ c ∈ order, c ≠ ⟨1, 1⟩ →
        ∃ y ∈ order, sampleStore.arena.Touches c y ∧ order.idxOf c < order.idxOf y :=
  have hlive : sampleStore.isLive ⟨1, 1⟩ = true := by decide +kernel
  ⟨hlive, reached_sampleStore.erase_order hlive⟩

end Reached

/-- Two nodes, an arc between them, and an arc from the first node to that arc. -/
def spanningActions : List Action :=
  [.addNode .const .lowest, .addNode .const .lowest,
    .connect .commonArc ⟨1, 1⟩ ⟨1, 2⟩ .lowest, .connect .membershipArc ⟨1, 1⟩ ⟨1, 3⟩ .lowest]

def spanningStore : Store := (Action.runAll spanningActions (.ofSettings .small)).2

/-- Not every connector is reported before its ends: the arc to an arc is found on the node that
both leave, and comes late. -/
theorem erase_order_violated : ¬∀ (made : List Address) (s : Store) (x : Address),
    Reached (fun _ => True) made s → s.isLive x = true →
      ∃ order s', (Store.erase x).on s = (.ok order, s') ∧
        ∀ c ∈ order, ∀ y ∈ order, s.arena.Touches c y → order.idxOf c < order.idxOf y := by
  intro hall
  have hadmissible : ∀ k ∈ spanningActions, k.Admissible := by
    simp [spanningActions, Action.Admissible, Access.inUse_lowest]
  have hreached := (@Reached.fresh (fun _ => True) .small trivial).runAll hadmissible
  obtain ⟨order, s', hrun, hbefore⟩ := hall _ spanningStore ⟨1, 1⟩ hreached (by decide +kernel)
  have hreport : ((Store.erase ⟨1, 1⟩).on spanningStore).1 = .ok [⟨1, 3⟩, ⟨1, 4⟩, ⟨1, 1⟩] := by
    decide +kernel
  rw [hrun] at hreport
  obtain rfl := Except.ok.inj hreport
  have htouches : spanningStore.arena.Touches ⟨1, 4⟩ ⟨1, 3⟩ := by
    have hends : ((spanningStore.arena.find? ⟨1, 4⟩).bind (·.connection)).map (·.target)
        = some ⟨1, 3⟩ := by decide +kernel
    obtain ⟨k, hk, htarget⟩ := Option.map_eq_some_iff.1 hends
    obtain ⟨e, he, hk⟩ := Option.bind_eq_some_iff.1 hk
    exact ⟨e, k, he, hk, .inr htarget⟩
  have hlt := hbefore ⟨1, 4⟩ (by simp) ⟨1, 3⟩ (by simp) htouches
  exact absurd hlt (by decide)

end SemanticNet
