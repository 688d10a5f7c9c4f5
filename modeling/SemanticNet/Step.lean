import SemanticNet.Failure

/-!
# Steps

A step works on a state and may fail; what it did to the state before it failed stays done. A step
is a function from states to an outcome and a state, and the lemmas of this module say what each way
of building a step comes to as such a function.
-/

namespace SemanticNet

/-- A step on a state of type `σ` that may fail and that leaves a state behind either way. -/
abbrev Step (σ α : Type) := ExceptT Failure (StateM σ) α

namespace Step

variable {σ τ α β : Type}

/-- The outcome of a step from `s`, and the state that it leaves. -/
def on (x : Step σ α) (s : σ) : Except Failure α × σ := (x.run.run s).run

/-- A step that only looks at the state. -/
def ask (f : σ → Except Failure α) : Step σ α := fun s => (f s, s)

/-- A step that changes the state and can not fail. -/
def change (f : σ → σ) : Step σ Unit := fun s => (.ok (), f s)

/-- A step on one part of a state. The part is taken out while the step works on it. -/
def within (get : τ → σ) (put : σ → τ → τ) (hole : σ) (x : Step σ α) : Step τ α := fun t =>
  let s := get t
  let t := put hole t
  let (r, s) := x s
  (r, put s t)

@[simp] theorem on_ask (f : σ → Except Failure α) (s : σ) : (ask f).on s = (f s, s) := rfl

@[simp] theorem on_change (f : σ → σ) (s : σ) : (change f).on s = (.ok (), f s) := rfl

@[simp] theorem on_within (get : τ → σ) (put : σ → τ → τ) (hole : σ) (x : Step σ α) (t : τ) :
    (within get put hole x).on t = ((x.on (get t)).1, put (x.on (get t)).2 (put hole t)) := rfl

@[simp] theorem on_pure (a : α) (s : σ) : (pure a : Step σ α).on s = (.ok a, s) := rfl

@[simp] theorem on_throw (f : Failure) (s : σ) : (throw f : Step σ α).on s = (.error f, s) := rfl

@[simp] theorem on_get (s : σ) : (get : Step σ σ).on s = (.ok s, s) := rfl

@[simp] theorem on_modifyGet (f : σ → α × σ) (s : σ) :
    (modifyGet f : Step σ α).on s = (.ok (f s).1, (f s).2) := rfl

@[simp] theorem on_lift (r : Except Failure α) (s : σ) : (liftM r : Step σ α).on s = (r, s) := by
  cases r <;> rfl

@[simp] theorem on_set (s t : σ) : (set t : Step σ Unit).on s = (.ok (), t) := rfl

/-- The second step of two is taken when the first one does not fail. -/
theorem on_bind (x : Step σ α) (f : α → Step σ β) (s : σ) :
    (x >>= f).on s =
      match x.on s with
      | (.ok a, s) => (f a).on s
      | (.error e, s) => (.error e, s) := by
  show ExceptT.bindCont f (x s).1 (x s).2 = _
  cases h : x s with
  | mk r t =>
    have hx : x.on s = (r, t) := h
    rw [hx]
    cases r <;> rfl

/-- Steps that follow steps that do the same need only do the same after these have succeeded. -/
theorem on_bind_congr {x y : Step σ α} {f g : α → Step σ β} {s : σ}
    (hxy : x.on s = y.on s) (hfg : ∀ a s', y.on s = (.ok a, s') → (f a).on s' = (g a).on s') :
    (x >>= f).on s = (y >>= g).on s := by
  rw [on_bind, on_bind, hxy]
  rcases hy : y.on s with ⟨e | a, s'⟩
  · rfl
  · exact hfg a s' hy

theorem on_map (x : Step σ α) (f : α → β) (s : σ) :
    (f <$> x).on s = ((x.on s).1.map f, (x.on s).2) := by
  cases h : x s with
  | mk r t =>
    have hx : x.on s = (r, t) := h
    have hm : f <$> x = ExceptT.map f x := rfl
    rw [hx, hm, on, ExceptT.run, StateT.run, ExceptT.map, ExceptT.mk]
    simp only [bind, StateT.bind, h]
    cases r <;> rfl

/-- After a failure the handler goes on from the state that was left. -/
theorem on_tryCatch (x : Step σ α) (f : Failure → Step σ α) (s : σ) :
    (tryCatch x f).on s =
      match x.on s with
      | (.ok a, s) => (.ok a, s)
      | (.error e, s) => (f e).on s := by
  cases h : x s with
  | mk r t =>
    have hx : x.on s = (r, t) := h
    have hc : tryCatch x f = ExceptT.tryCatch x f := rfl
    rw [hx, hc, on, ExceptT.run, StateT.run, ExceptT.tryCatch, ExceptT.mk]
    simp only [bind, StateT.bind, h]
    cases r <;> rfl

end Step

end SemanticNet
