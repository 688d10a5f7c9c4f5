import SemanticNet.Proofs.Extending

/-!
# Withdrawals

New elements that all hang on one of them are withdrawn when that one is erased. Then the graph is
the same as before they were made (`Store.Begun.withdrawn`): the elements, their contents and their
rings (`Store.SameGraph`). What may differ is which free slots are handed out first, and the
metrics.
-/

namespace SemanticNet.Store

variable {s s' s'' : Store} {made made' news order : List Address} {a : Address} {bytes : Bytes}

/-- The graph of `s'` is that of `s`: at each address there is the same element, with its type,
levels and ends, and the same content, and every ring lists as many connectors, the same ones in the
same order. -/
structure SameGraph (s s' : Store) : Prop where
  bare : ∀ a, s'.arena.bare? a = s.arena.bare? a
  contents : ∀ a, s'.contents.get? a = s.contents.get? a
  ring : ∀ x d cs, s'.arena.IsRing x d cs ↔ s.arena.IsRing x d cs

namespace SameGraph

theorem of_agrees (h : s.Agrees s') : s.SameGraph s' where
  bare a := by rw [h.arena]
  contents a := by rw [h.contents]
  ring x d cs := by rw [h.arena]

theorem names (h : s.SameGraph s') {n : Naming} (hn : s'.Names bytes n) : s.Names bytes n where
  content := (h.contents _).symm.trans hn.content
  arc := hn.arc.of_bare (h.bare _)
  mark := hn.mark.of_bare (h.bare _)

end SameGraph

theorem Extends.sameGraph (h : s.Extends s' news) (h' : s'.SameGraph s'') :
    s.Extends s'' news where
  fresh := h.fresh
  bare a ha := (h'.bare a).trans (h.bare a ha)
  contents a ha := (h'.contents a).trans (h.contents a ha)
  inward b hb mask x y hconnects := h.inward b hb mask x y (hconnects.of_bare (h'.bare b))
  ring x d cs hcs := by
    obtain ⟨cs', hcs', hfilter⟩ := h.ring x d cs hcs
    exact ⟨cs', (h'.ring x d cs').2 hcs', hfilter⟩

/-- Without its new elements an extension is what it extends. -/
theorem Extends.withdraw (h : s.Extends s' news) (hrest : s.AtRest made)
    (hless : s'.Less s'' order) (horder : ∀ b, b ∈ order ↔ b ∈ news) : s.SameGraph s'' := by
  have hbare : ∀ a, s''.arena.bare? a = s.arena.bare? a := by
    intro a
    rw [hless.arena.bare]
    by_cases ha : a ∈ news
    · rw [if_pos ((horder a).2 ha), Arena.bare?, h.fresh a ha]
      rfl
    · rw [if_neg (ha ∘ (horder a).1), h.bare a ha]
  have hring : ∀ x d cs, s.arena.IsRing x d cs → s''.arena.IsRing x d cs := by
    intro x d cs hcs
    obtain ⟨cs', hcs', hfilter⟩ := h.ring x d cs hcs
    have hx : x ∉ order := h.notMem_of_isSome hcs.isSome_owner ∘ (horder x).1
    have hleft := hless.arena.ring x d cs' hx hcs'
    rw [← hfilter]
    simpa only [horder] using hleft
  refine ⟨hbare, fun a => ?_, fun x d cs => ⟨fun hcs => ?_, hring x d cs⟩⟩
  · rw [hless.contents]
    by_cases ha : a ∈ news
    · rw [if_pos ((horder a).2 ha), hrest.content_of_dead (h.fresh a ha)]
    · rw [if_neg (ha ∘ (horder a).1), h.contents a ha]
  · -- the owner was there before, with a ring of its own
    have hx : (s.arena.find? x).isSome := by
      rw [← Arena.isSome_of_bare (hbare x)]
      exact hcs.isSome_owner
    obtain ⟨cs₀, hcs₀, -⟩ := hrest.sound.wired.ring x d hx
    rw [hcs.unique (hring x d cs₀ hcs₀)]
    exact hcs₀

/-- In `s'` there are the new elements `news`, which all hang on `a`. -/
structure Begun (s s' : Store) (news : List Address) (a : Address) : Prop where
  new : s.Extends s' news
  mem : a ∈ news
  hanging : ∀ b ∈ news, s'.arena.Hanging a b

namespace Begun

theorem alone (h : s.Extends s' [a]) : s.Begun s' [a] a where
  new := h
  mem := List.mem_singleton_self a
  hanging b hb := by
    rw [List.mem_singleton] at hb
    exact hb ▸ .self

theorem agrees (h : s.Begun s' news a) (ha : s'.Agrees s'') : s.Begun s'' news a where
  new := h.new.agrees ha
  mem := h.mem
  hanging := ha.arena ▸ h.hanging

/-- When the element on which all that is new hangs is erased, nothing of it is left. -/
theorem withdrawn (h : s.Begun s' news a) (hrest : s.AtRest made) (hrest' : s'.AtRest made')
    (ha : (s'.arena.find? a).isSome) :
    ∃ order s'', (Store.erase a).on s' = (.ok order, s'') ∧ s.SameGraph s'' := by
  obtain ⟨order, s'', hrun, -, hless, -, -, hmem, -⟩ := hrest'.erase ha
  refine ⟨order, s'', hrun, h.new.withdraw hrest hless fun b => ?_⟩
  rw [hmem]
  constructor
  · intro hb
    exact hb.closed h.mem fun x hx y hy => h.new.mem_of_touches hrest hy hx
  · exact h.hanging b

end Begun

end SemanticNet.Store
