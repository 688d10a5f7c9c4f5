import SemanticNet.Element

/-!
# Places

The link of a connector in a ring is there exactly when the ring is one of its places, and changing
it changes no other link of the connector (`Element.link?_setLink`). `Element.bare` is an element
without its rings and links; it decides which places the element has.
-/

namespace SemanticNet

/-- A connection without its links. -/
def Connection.bare (c : Connection) : Connection := { source := c.source, target := c.target }

theorem Connection.link_setLink {c : Connection} {l : RingLink} {ρ σ : Role} :
    (c.setLink l ρ).link σ = if σ = ρ then l else c.link σ := by
  cases ρ <;> cases σ <;> rfl

namespace Element

variable {e e' : Element} {x y : Address} {d d' : Direction} {l : RingLink} {r : RingHead}

/-- An element without its rings and links: its type, levels, marks and ends. -/
def bare (e : Element) : Element :=
  { e with outgoing := {}, incoming := {}, connection := e.connection.map Connection.bare }

theorem role?_bare : e.bare.role? x d = e.role? x d := by
  obtain ⟨type, access, flags, erasing, out, inc, con⟩ := e
  cases con <;> cases d <;> rfl

theorem places_bare : e.bare.places = e.places := by
  obtain ⟨type, access, flags, erasing, out, inc, con⟩ := e
  cases con <;> rfl

theorem ends?_bare : e.bare.ends? = e.ends? := by
  obtain ⟨type, access, flags, erasing, out, inc, con⟩ := e
  cases con <;> rfl

theorem places_congr (h : e.bare = e'.bare) : e.places = e'.places := by
  rw [← places_bare, h, places_bare]

/-! ## Rings -/

@[simp] theorem bare_setRing : (e.setRing r d).bare = e.bare := by
  cases d <;> rfl

@[simp] theorem link?_setRing : (e.setRing r d).link? y d' = e.link? y d' := by
  cases d <;> rfl

theorem ring_setRing : (e.setRing r d).ring d' = if d' = d then r else e.ring d' := by
  cases d <;> cases d' <;> rfl

/-! ## Links -/

theorem link?_eq_bind : e.link? x d = e.connection.bind fun c => (e.role? x d).map c.link := by
  rw [link?]
  cases hc : e.connection with
  | none => rfl
  | some c => cases e.role? x d <;> rfl

/-- A role names the owner and the direction of the ring. -/
theorem role?_inj {ρ : Role} (h : e.role? x d = some ρ) (h' : e.role? y d' = some ρ) :
    x = y ∧ d = d' := by
  obtain ⟨type, access, flags, erasing, out, inc, con⟩ := e
  cases con with
  | none => cases d <;> simp [role?] at h
  | some c => cases d <;> cases d' <;> simp only [role?] at h h' <;> grind

theorem role?_isSome_iff : (e.role? x d).isSome ↔ (x, d) ∈ e.places := by
  obtain ⟨type, access, flags, erasing, out, inc, con⟩ := e
  cases con with
  | none => cases d <;> simp [role?, places]
  | some c => cases d <;> simp only [role?, places] <;> grind

theorem nodup_places : e.places.Nodup := by
  obtain ⟨type, access, flags, erasing, out, inc, con⟩ := e
  cases con with
  | none => simp [places]
  | some c => grind [places]

theorem link?_isSome_iff : (e.link? x d).isSome ↔ (x, d) ∈ e.places := by
  rw [← role?_isSome_iff, link?_eq_bind]
  cases hc : e.connection with
  | none => cases d <;> simp [role?, hc]
  | some c => simp

theorem bare_setLink : (e.setLink x d l).bare = e.bare := by
  obtain ⟨type, access, flags, erasing, out, inc, con⟩ := e
  rw [setLink]
  split
  next c ρ hc hr => cases ρ <;> simp_all [bare, Connection.setLink, Connection.bare]
  next => rfl

theorem ring_setLink : (e.setLink x d l).ring d' = e.ring d' := by
  rw [setLink]
  split <;> cases d' <;> rfl

/-- Changing the link of a connector in one ring changes none of its others. -/
theorem link?_setLink : (e.setLink x d l).link? y d' =
    if y = x ∧ d' = d then (e.link? y d').map fun _ => l else e.link? y d' := by
  have hrole : (e.setLink x d l).role? y d' = e.role? y d' := by
    rw [← role?_bare, bare_setLink, role?_bare]
  rw [link?_eq_bind, hrole, link?_eq_bind, setLink]
  cases hc : e.connection with
  | none => simp [hc]
  | some c =>
    cases hr : e.role? x d with
    | none =>
      simp only [hc]
      split
      next h =>
        rw [h.1, h.2, hr]
        rfl
      next => rfl
    | some ρ =>
      cases hs : e.role? y d' with
      | none => simp
      | some σ =>
        simp only [Option.bind_some, Option.map_some, Connection.link_setLink]
        by_cases h : σ = ρ
        · rw [if_pos h, if_pos (role?_inj hs (h ▸ hr))]
        · rw [if_neg h, if_neg]
          intro hand
          obtain ⟨rfl, rfl⟩ := hand
          exact h (Option.some.inj (hs.symm.trans hr))

end Element

end SemanticNet
