import SemanticNet.Proofs.Places
import SemanticNet.Proofs.Types
import SemanticNet.Store.Erase

/-!
# Outlines

The outline of an element is all of it but its levels and the bits of its type that narrowing may
add (`Element.outline`). Rings, marks and the sort can be read off it, and a change that looks at no
more than that commutes with other types and levels (`Element.Blind`).
-/

namespace SemanticNet.Element

variable {e e' : Element} {x a : Address} {d : Direction} {type : ElementType} {access : Access}
  {f g : Element → Element}

/-- The element with another type and other levels. -/
def retint (e : Element) (type : ElementType) (access : Access) : Element :=
  { e with type, access }

/-- What neither narrowing nor new levels change. -/
def outline (e : Element) : Element × ElementType × Bool :=
  (e.retint .unknown .lowest, e.type.mould)

theorem outline_retint (h : type.mould = e.type.mould) :
    (e.retint type access).outline = e.outline :=
  Prod.ext rfl h

/-- Elements with one outline differ in type and levels only. -/
theorem outline_eq_iff : e'.outline = e.outline ↔
    ∃ type access, type.mould = e.type.mould ∧ e' = e.retint type access := by
  constructor
  · intro h
    refine ⟨e'.type, e'.access, congrArg Prod.snd h, ?_⟩
    have hrest := congrArg (fun o => o.1.retint e'.type e'.access) h
    exact hrest
  · rintro ⟨type, access, hmould, rfl⟩
    exact outline_retint hmould

/-! ## What can be read off an outline -/

theorem ring_of_outline (h : e'.outline = e.outline) : e'.ring d = e.ring d := by
  obtain ⟨type, access, -, rfl⟩ := outline_eq_iff.1 h
  cases d <;> rfl

theorem erasing_of_outline (h : e'.outline = e.outline) : e'.erasing = e.erasing :=
  congrArg (·.1.erasing) h

theorem isCommonEdge_of_outline (h : e'.outline = e.outline) :
    e'.type.isCommonEdge = e.type.isCommonEdge :=
  ElementType.isCommonEdge_of_mould (congrArg Prod.snd h)

theorem isLink_of_outline (h : e'.outline = e.outline) : e'.type.isLink = e.type.isLink :=
  ElementType.isLink_of_mould (congrArg Prod.snd h)

theorem sort_of_outline (h : e'.outline = e.outline) : e'.type.sort = e.type.sort :=
  ElementType.sort_of_mould (congrArg Prod.snd h)

theorem hasIncident_of_outline (h : e'.outline = e.outline) : e'.hasIncident = e.hasIncident := by
  have hout : e'.outgoing = e.outgoing := ring_of_outline (d := .outgoing) h
  have hin : e'.incoming = e.incoming := ring_of_outline (d := .incoming) h
  rw [hasIncident, hout, hin, hasIncident]

theorem role?_of_outline (h : e'.outline = e.outline) : e'.role? x d = e.role? x d := by
  have hcon : e'.connection = e.connection := congrArg (·.1.connection) h
  cases d <;> simp only [role?, hcon, isCommonEdge_of_outline h]

theorem link?_of_outline (h : e'.outline = e.outline) : e'.link? x d = e.link? x d := by
  have hcon : e'.connection = e.connection := congrArg (·.1.connection) h
  rw [link?_eq_bind, link?_eq_bind, hcon, role?_of_outline h]

theorem places_of_outline (h : e'.outline = e.outline) : e'.places = e.places := by
  have hcon : e'.connection = e.connection := congrArg (·.1.connection) h
  rw [places, places, hcon, isCommonEdge_of_outline h]

/-! ## Changes that look at outlines only -/

/-- A change of which type, levels and ends are no part, and that only cares for the mould. -/
structure Blind (f : Element → Element) : Prop where
  retint : ∀ e type access, type.mould = e.type.mould →
    f (e.retint type access) = (f e).retint type access
  ends : ∀ e, (f e).ends? = e.ends?

/-- A blind change leaves type and levels as they are. -/
theorem Blind.eq_retint (h : Blind f) : f e = (f e).retint e.type e.access := h.retint e _ _ rfl

theorem Blind.type_eq (h : Blind f) : (f e).type = e.type := congrArg (·.type) h.eq_retint

theorem Blind.access_eq (h : Blind f) : (f e).access = e.access := congrArg (·.access) h.eq_retint

theorem blind_setErasing {mark : Bool} : Blind ({ · with erasing := mark }) where
  retint _ _ _ _ := rfl
  ends _ := rfl

/-- The new head of a ring may depend on the old one. -/
theorem blind_setRing {r : RingHead → RingHead} :
    Blind fun e => e.setRing (r (e.ring d)) d where
  retint e type access _ := by cases d <;> rfl
  ends e := by cases d <;> rfl

theorem blind_setLink {l : RingLink} : Blind (·.setLink x d l) where
  retint e type access h := by
    have hrole : (e.retint type access).role? x d = e.role? x d :=
      role?_of_outline (outline_retint h)
    have hcon : (e.retint type access).connection = e.connection := rfl
    simp only [setLink, hrole, hcon]
    split <;> rfl
  ends e := by rw [← ends?_bare, bare_setLink, ends?_bare]

end SemanticNet.Element
