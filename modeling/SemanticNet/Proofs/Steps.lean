import SemanticNet.Step

/-!
# What steps keep

A step respects a relation of states when it can not tell related states apart and leaves related
states behind (`Respects`). It keeps a property of states when the state that it leaves has the
property, whether the step failed or not (`Keeps`). What is built from such steps is such a step
(`Respects.bind`, `Keeps.bind`).
-/

namespace SemanticNet

/-- What comes out of two computations in a row went through the first one. -/
theorem bind_eq_ok_iff {ε α β : Type} {x : Except ε α} {f : α → Except ε β} {b : β} :
    x >>= f = .ok b ↔ ∃ a, x = .ok a ∧ f a = .ok b := by
  cases x with
  | error e =>
    constructor
    · intro h
      cases h
    · intro hex
      obtain ⟨a, ha, -⟩ := hex
      cases ha
  | ok a =>
    constructor
    · intro h
      exact ⟨a, rfl, h⟩
    · intro hex
      obtain ⟨a', ha, h⟩ := hex
      cases ha
      exact h

namespace Step

variable {σ α β : Type} {P : σ → Prop} {R : σ → σ → Prop}

/-- A question is refused, or the step goes on with its answer. -/
theorem ask_bind_cases (f : σ → Except Failure α) (x : α → Step σ β) (s : σ) :
    (∃ a, f s = .ok a ∧ (ask f >>= x).on s = (x a).on s) ∨
      ∃ e, (ask f >>= x).on s = (.error e, s) := by
  rw [on_bind, on_ask]
  cases f s with
  | ok a => exact .inl ⟨a, rfl, rfl⟩
  | error e => exact .inr ⟨e, rfl⟩

/-- Two steps come to an answer when the first one does and then the second one. -/
theorem on_bind_eq_ok_iff {x : Step σ α} {f : α → Step σ β} {b : β} {s t : σ} :
    (x >>= f).on s = (.ok b, t) ↔ ∃ a s', x.on s = (.ok a, s') ∧ (f a).on s' = (.ok b, t) := by
  rw [on_bind]
  rcases x.on s with ⟨e | a, s'⟩
  · simp
  · constructor
    · intro h
      exact ⟨a, s', rfl, h⟩
    · rintro ⟨a', s'', ha, h⟩
      cases ha
      exact h

theorem on_map_eq_ok_iff {x : Step σ α} {f : α → β} {b : β} {s : σ} :
    ((f <$> x).on s).1 = .ok b ↔ ∃ a, (x.on s).1 = .ok a ∧ f a = b := by
  rw [on_map]
  cases (x.on s).1 <;> simp [Except.map]

/-! ## Related states -/

/-- From related states a step comes to one outcome, and it leaves related states. -/
def Respects (R : σ → σ → Prop) (x : Step σ α) : Prop :=
  ∀ s s', R s s' → (x.on s').1 = (x.on s).1 ∧ R (x.on s).2 (x.on s').2

theorem respects_pure (a : α) : Respects R (pure a) := fun _ _ h => ⟨rfl, h⟩

theorem respects_throw (f : Failure) : Respects R (throw f : Step σ α) := fun _ _ h => ⟨rfl, h⟩

theorem respects_ask {f : σ → Except Failure α} (h : ∀ s s', R s s' → f s' = f s) :
    Respects R (ask f) := fun s s' hs => ⟨h s s' hs, hs⟩

theorem respects_change {f : σ → σ} (h : ∀ s s', R s s' → R (f s) (f s')) :
    Respects R (change f) := fun s s' hs => ⟨rfl, h s s' hs⟩

theorem Respects.runs {x : Step σ α} {s s' : σ} (hx : Respects R x) (hs : R s s') :
    ∃ r t t', x.on s = (r, t) ∧ x.on s' = (r, t') ∧ R t t' := by
  obtain ⟨houtcome, hstates⟩ := hx s s' hs
  exact ⟨(x.on s).1, (x.on s).2, (x.on s').2, rfl, by rw [← houtcome], hstates⟩

theorem Respects.bind {x : Step σ α} {f : α → Step σ β} (hx : Respects R x)
    (hf : ∀ a, Respects R (f a)) : Respects R (x >>= f) := by
  intro s s' hs
  obtain ⟨r, t, t', hrun, hrun', ht⟩ := hx.runs hs
  rw [on_bind, on_bind, hrun, hrun']
  cases r with
  | ok a => exact hf a t t' ht
  | error e => exact ⟨rfl, ht⟩

/-- The answers of related states may differ where the rest of the step does not look. -/
theorem Respects.ask_bind {γ : Type} {f : σ → Except Failure α} {x : α → Step σ β} (view : α → γ)
    (hf : ∀ s s', R s s' → (f s').map view = (f s).map view)
    (hview : ∀ a a', view a' = view a → x a' = x a) (hx : ∀ a, Respects R (x a)) :
    Respects R (ask f >>= x) := by
  intro s s' hs
  have hanswer := hf s s' hs
  rw [on_bind, on_bind, on_ask, on_ask]
  cases hr : f s with
  | error e =>
    cases hr' : f s' with
    | error e' =>
      rw [hr, hr'] at hanswer
      exact ⟨congrArg Except.error (Except.error.inj hanswer), hs⟩
    | ok a' => simp [hr, hr', Except.map] at hanswer
  | ok a =>
    cases hr' : f s' with
    | error e' => simp [hr, hr', Except.map] at hanswer
    | ok a' =>
      rw [hr, hr'] at hanswer
      dsimp only
      rw [hview a a' (Except.ok.inj hanswer)]
      exact hx a s s' hs

theorem Respects.map {x : Step σ α} (hx : Respects R x) (f : α → β) : Respects R (f <$> x) := by
  intro s s' hs
  obtain ⟨r, t, t', hrun, hrun', ht⟩ := hx.runs hs
  rw [on_map, on_map, hrun, hrun']
  exact ⟨rfl, ht⟩

theorem Respects.tryCatch {x : Step σ α} {f : Failure → Step σ α} (hx : Respects R x)
    (hf : ∀ e, Respects R (f e)) : Respects R (tryCatch x f) := by
  intro s s' hs
  obtain ⟨r, t, t', hrun, hrun', ht⟩ := hx.runs hs
  rw [on_tryCatch, on_tryCatch, hrun, hrun']
  cases r with
  | ok a => exact ⟨rfl, ht⟩
  | error e => exact hf e t t' ht

/-- A step that is refused when `p` is false. -/
theorem Respects.guarded {p : Bool} {f : Failure} {x : Step σ α} (hx : p = true → Respects R x) :
    Respects R (do
      unless p do throw f
      x) := by
  cases p with
  | true => exact hx rfl
  | false => exact fun s s' hs => ⟨rfl, hs⟩

/-! ## Properties that stay -/

/-- Whatever its outcome, a step keeps `P`. -/
def Keeps (P : σ → Prop) (x : Step σ α) : Prop := ∀ s, P s → P (x.on s).2

/-- To keep a property is to respect the relation of each state that has it with itself. -/
theorem respects_iff_keeps {x : Step σ α} :
    Respects (fun s s' => s' = s ∧ P s) x ↔ Keeps P x := by
  constructor
  · intro h s hs
    exact (h s s ⟨rfl, hs⟩).2.2
  · rintro h s s' ⟨rfl, hs⟩
    exact ⟨rfl, rfl, h s' hs⟩

theorem keeps_pure (a : α) : Keeps P (pure a) := fun _ h => h

theorem keeps_ask (f : σ → Except Failure α) : Keeps P (ask f) := fun _ h => h

theorem keeps_throw (f : Failure) : Keeps P (throw f : Step σ α) := fun _ h => h

theorem Keeps.bind {x : Step σ α} {f : α → Step σ β} (hx : Keeps P x) (hf : ∀ a, Keeps P (f a)) :
    Keeps P (x >>= f) := by
  rw [← respects_iff_keeps] at hx ⊢
  exact hx.bind fun a => respects_iff_keeps.2 (hf a)

theorem Keeps.map {x : Step σ α} (hx : Keeps P x) (f : α → β) : Keeps P (f <$> x) := by
  rw [← respects_iff_keeps] at hx ⊢
  exact hx.map f

theorem Keeps.tryCatch {x : Step σ α} {f : Failure → Step σ α} (hx : Keeps P x)
    (hf : ∀ e, Keeps P (f e)) : Keeps P (tryCatch x f) := by
  rw [← respects_iff_keeps] at hx ⊢
  exact hx.tryCatch fun e => respects_iff_keeps.2 (hf e)

theorem Keeps.guarded {p : Bool} {f : Failure} {x : Step σ α} (hx : p = true → Keeps P x) :
    Keeps P (do
      unless p do throw f
      x) :=
  respects_iff_keeps.1 (Respects.guarded fun hp => respects_iff_keeps.2 (hx hp))

end Step

end SemanticNet
