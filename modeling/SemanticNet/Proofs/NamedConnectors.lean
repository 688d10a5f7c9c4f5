import SemanticNet.Proofs.Walking

/-!
# Walks around a named connector

A walk over a pattern that names its connector yields one triple at most. Before anything else it
settles which end of the connector is the source: a named end settles that, and when both ends are
open the connector is read forward, from its source to its target (`Triples.single?_eq_some_iff`).
So a common edge that fits open ends the other way round only is not found
(`named_edge_missed`); in every other case the walk finds what fits (`Store.named_connector_walk`).
-/

namespace SemanticNet

/-- An end of the triples is named. -/
def Pattern.NamesEnd (p : Pattern) : Prop := p.source.fixed?.isSome ∨ p.target.fixed?.isSome

/-- The connector of the triple goes from the source of the triple to its target. -/
def Triple.Forward (τ : Triple) (t : Arena) : Prop :=
  ∃ e k, t.find? τ.connector = some e ∧ e.connection = some k ∧
    (k.source, k.target) = (τ.source, τ.target)

/-- A term that names an element fits that element only. -/
theorem Term.Fits.agrees {m : Term} {t : Arena} {levels : Access} {x : Address}
    (h : m.Fits t levels x) : m.fixed?.all (· == x) = true := by
  obtain ⟨type, -, haccepts⟩ := h
  cases m with
  | fixed a =>
    have hax : a = x := by simpa [accepts] using haccepts
    simp [fixed?, hax]
  | any mask => rfl

namespace Triples

variable {w : Triples} {t : Arena} {x y c : Address} {τ : Triple} {k : Connection}
  {type : ElementType}

/-- The order of the ends agrees with the terms that name them; without such terms it is the order
of the connector. -/
theorem orient?_eq_some_iff : w.orient? type k = some (x, y) ↔
    ((k.source, k.target) = (x, y) ∨
      type.isCommonEdge = true ∧ (k.target, k.source) = (x, y)) ∧
    (w.pattern.source.fixed?.all (· == x) = true ∧
      w.pattern.target.fixed?.all (· == y) = true) ∧
    (w.pattern.NamesEnd ∨ (k.source, k.target) = (x, y)) := by
  obtain ⟨⟨source, connector, target⟩, levels, cursor, current⟩ := w
  cases hedge : type.isCommonEdge <;> cases source <;> cases target <;>
    simp [orient?, hedge, Pattern.NamesEnd, Term.fixed?, List.find?_cons] <;> grind

/-- The triple of a named connector is one that fits; between open ends it goes forward. -/
theorem single?_eq_some_iff (hc : w.pattern.connector = .fixed c) :
    w.single? t c = some τ ↔
      w.pattern.Fits t w.levels τ ∧ (w.pattern.NamesEnd ∨ τ.Forward t) := by
  have hunfold : w.single? t c = (t.readable? w.levels c).bind fun type =>
      (t.find? c).bind fun e => e.connection.bind fun k => (w.orient? type k).bind fun p =>
        (t.readable? w.levels p.1).bind fun m => (t.readable? w.levels p.2).bind fun n =>
          if w.pattern.source.accepts p.1 m && w.pattern.target.accepts p.2 n then
            some ⟨p.1, c, p.2⟩ else none := by
    rfl
  simp only [hunfold, Option.bind_eq_some_iff, Option.ite_none_right_eq_some, Bool.and_eq_true,
    Option.some.injEq]
  constructor
  · rintro ⟨type, htype, e, he, k, hk, ⟨x, y⟩, horient, m, hm, n, hn, ⟨hsource, htarget⟩, rfl⟩
    obtain rfl := Arena.type_of_readable? he htype
    obtain ⟨hends, -, hforward⟩ := orient?_eq_some_iff.1 horient
    have hconnector : w.pattern.connector.accepts c e.type = true := by simp [hc, Term.accepts]
    exact ⟨⟨⟨e, he, k, hk, hends⟩, ⟨m, hm, hsource⟩, ⟨e.type, htype, hconnector⟩, n, hn, htarget⟩,
      hforward.imp_right fun hends => ⟨e, k, he, hk, hends⟩⟩
  · rintro ⟨⟨⟨e, he, k, hk, hends⟩, hsource, hconnector, htarget⟩, hforward⟩
    obtain ⟨x, c', y⟩ := τ
    obtain rfl : c = c' := by simpa [hc, Term.fixed?] using hconnector.agrees
    obtain ⟨type, htype, -⟩ := hconnector
    have heq := Arena.type_of_readable? he htype
    have hordered : w.pattern.NamesEnd ∨ (k.source, k.target) = (x, y) := by
      refine hforward.imp_right fun hf => ?_
      obtain ⟨e', k', he', hk', hends'⟩ := hf
      obtain rfl := Option.some.inj (he.symm.trans he')
      obtain rfl := Option.some.inj (hk.symm.trans hk')
      exact hends'
    have horient := orient?_eq_some_iff.2
      ⟨heq ▸ hends, ⟨hsource.agrees, htarget.agrees⟩, hordered⟩
    obtain ⟨m, hm, hsource⟩ := hsource
    obtain ⟨n, hn, htarget⟩ := htarget
    exact ⟨type, htype, e, he, k, hk, (x, y), horient, m, hm, n, hn, ⟨hsource, htarget⟩, rfl⟩

/-- The first move of a walk around a named connector comes to its triple, if there is one. -/
theorem advance_eq_single (hc : w.pattern.connector = .fixed c) (hw : w.cursor = .start) :
    (w.advance t).1 = match w.single? t c with
      | some τ => { w with cursor := .at c, current := τ }
      | none => w.finish := by
  have hgoing : w.isDone = false := by simp [isDone, hw]
  have hmove : (w.advance t).1 = w.advanceAt t c := by simp [advance, hgoing, hc]
  cases hτ : w.single? t c <;> simp [hmove, advanceAt, hw, hτ]

/-- The first move comes to a triple just when there is one to come to. -/
theorem isDone_advance_iff (hc : w.pattern.connector = .fixed c) (hw : w.cursor = .start) :
    (w.advance t).1.isDone = false ↔
      ∃ τ, w.pattern.Fits t w.levels τ ∧ (w.pattern.NamesEnd ∨ τ.Forward t) := by
  rw [advance_eq_single hc hw]
  constructor
  · intro hgoing
    cases hτ : w.single? t c with
    | none => simp [hτ, isDone, finish] at hgoing
    | some τ => exact ⟨τ, (single?_eq_some_iff hc).1 hτ⟩
  · intro hex
    obtain ⟨τ, hτ⟩ := hex
    rw [(single?_eq_some_iff hc).2 hτ]
    rfl

theorem fits_advance (hc : w.pattern.connector = .fixed c) (hw : w.cursor = .start)
    (hgoing : (w.advance t).1.isDone = false) :
    w.pattern.Fits t w.levels (w.advance t).1.current := by
  obtain ⟨τ, hτ⟩ := (isDone_advance_iff hc hw).1 hgoing
  rw [advance_eq_single hc hw, (single?_eq_some_iff hc).2 hτ]
  exact hτ.1

/-- The second move ends the walk, whatever became of the arena. -/
theorem advance_advance (hc : w.pattern.connector = .fixed c) (hw : w.cursor = .start)
    (t t' : Arena) : ((w.advance t).1.advance t').1 = w.finish := by
  rw [advance_eq_single hc hw]
  cases w.single? t c with
  | none => rfl
  | some τ => simp [advance, isDone, hc, advanceAt, finish]

/-- A walk around a named connector yields its triple, if there is one, and nothing else. -/
theorem yields_single (hc : w.pattern.connector = .fixed c) (hw : w.cursor = .start) :
    w.Yields t (w.single? t c).toList := by
  have hfirst := advance_eq_single (t := t) hc hw
  have hsecond := advance_advance hc hw t t
  cases hτ : w.single? t c with
  | none =>
    rw [hτ] at hfirst
    exact yields_nil hfirst
  | some τ =>
    rw [hτ] at hfirst
    rw [hfirst] at hsecond
    exact (yields_nil hsecond).cons hfirst rfl rfl

end Triples

/-- In any store whatever, a walk over a pattern that names its connector can be opened. Its first
move finds a triple just when one fits that goes forward or has a named end, and then it is at such
a triple; its second move ends it, whatever became of the arena. -/
theorem Store.named_connector_walk (s : Store) (source target : Term) (c : Address)
    (levels : Access) :
    ∃ w, Triples.open? ⟨source, .fixed c, target⟩ levels = .ok w ∧
      ((w.advance s.arena).1.isDone = false ↔ ∃ τ, w.pattern.Fits s.arena levels τ ∧
        (w.pattern.NamesEnd ∨ τ.Forward s.arena)) ∧
      ((w.advance s.arena).1.isDone = false →
        w.pattern.Fits s.arena levels (w.advance s.arena).1.current ∧
          (w.advance s.arena).1.current.connector = c) ∧
      ∀ t, ((w.advance s.arena).1.advance t).1 = w.finish := by
  let w : Triples := { pattern := ⟨source, .fixed c, target⟩, levels }
  have hopen : Triples.open? ⟨source, .fixed c, target⟩ levels = .ok w := by
    cases source <;> cases target <;> rfl
  refine ⟨w, hopen, Triples.isDone_advance_iff rfl rfl, fun hgoing => ?_,
    Triples.advance_advance rfl rfl s.arena⟩
  have hfits := Triples.fits_advance (w := w) rfl rfl hgoing
  have hnamed : c = (w.advance s.arena).1.current.connector := by
    simpa [w, Term.fixed?] using hfits.connector.agrees
  exact ⟨hfits, hnamed.symm⟩

/-- A node with a constant type and one with a variable type, and an edge from the one to the
other. -/
def mixedEdgeActions : List Action :=
  [.addNode .const .lowest, .addNode .var .lowest,
    .connect .commonEdge ⟨1, 1⟩ ⟨1, 2⟩ .lowest]

def mixedEdgeStore : Store := (Action.runAll mixedEdgeActions (.ofSettings .small)).2

/-- A walk around the edge that asks for the variable node as the source and for the constant one as
the target does not find the edge, which fits the other way round. -/
theorem named_edge_missed : ¬∀ (made : List Address) (s : Store) (source target : Term)
    (c : Address) (levels : Access) (w : Triples), Reached (fun _ => True) made s →
      Triples.open? ⟨source, .fixed c, target⟩ levels = .ok w →
      ((w.advance s.arena).1.isDone = false ↔ ∃ τ, w.pattern.Fits s.arena levels τ) := by
  intro hall
  have hadmissible : ∀ k ∈ mixedEdgeActions, k.Admissible := by
    simp [mixedEdgeActions, Action.Admissible, Access.inUse_lowest]
  have hreached : Reached (fun _ => True) _ mixedEdgeStore :=
    (@Reached.fresh (fun _ => True) .small trivial).runAll hadmissible
  let p : Pattern := ⟨.any .var, .fixed ⟨1, 3⟩, .any .const⟩
  have hiff := hall _ mixedEdgeStore (.any .var) (.any .const) ⟨1, 3⟩ .highest
    { pattern := p, levels := .highest } hreached rfl
  have hmissed : (({ pattern := p, levels := .highest } : Triples).advance
      mixedEdgeStore.arena).1.isDone = true := by decide +kernel
  -- the edge the other way round
  have hfits : p.Fits mixedEdgeStore.arena .highest ⟨⟨1, 2⟩, ⟨1, 3⟩, ⟨1, 1⟩⟩ := by
    decide +kernel
  have hfound := hiff.2 ⟨_, hfits⟩
  rw [hmissed] at hfound
  cases hfound

end SemanticNet
