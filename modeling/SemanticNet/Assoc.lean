/-!
# Lists of pairs

A list of pairs serves as a small map that keeps the order in which its keys were first given.
`List.lookup` is its view; `put` and `drop` change it at one key (`lookup_put`, `lookup_drop`).
-/

namespace SemanticNet.Assoc

variable {α β : Type} [DecidableEq α]

/-- Replaces what a list of pairs holds for a key, or adds the pair at the end. -/
def put (k : α) (v : β) : List (α × β) → List (α × β)
  | [] => [(k, v)]
  | (l, w) :: rest => if l = k then (k, v) :: rest else (l, w) :: put k v rest

/-- Drops what a list of pairs holds for a key. -/
def drop (k : α) (kvs : List (α × β)) : List (α × β) := kvs.filter (·.1 ≠ k)

variable [BEq α] [LawfulBEq α]

theorem lookup_cons_eq (l m : α) (w : β) (rest : List (α × β)) :
    ((m, w) :: rest).lookup l = if l = m then some w else rest.lookup l := by
  rw [List.lookup_cons]
  by_cases h : l = m
  · simp [h]
  · simp [h, beq_eq_false_iff_ne.2 h]

theorem lookup_put (k l : α) (v : β) (kvs : List (α × β)) :
    (put k v kvs).lookup l = if l = k then some v else kvs.lookup l := by
  induction kvs with
  | nil => rw [put, lookup_cons_eq]
  | cons p rest ih =>
    obtain ⟨m, w⟩ := p
    rw [put]
    split
    next h =>
      subst h
      simp only [lookup_cons_eq]
      split <;> rfl
    next h =>
      simp only [lookup_cons_eq, ih]
      split
      next hl => rw [if_neg (hl ▸ h)]
      next => rfl

theorem lookup_drop (k l : α) (kvs : List (α × β)) :
    (drop k kvs).lookup l = if l = k then none else kvs.lookup l := by
  induction kvs with
  | nil => simp [drop]
  | cons p rest ih =>
    obtain ⟨m, w⟩ := p
    by_cases hm : m = k
    · subst hm
      have hd : drop m ((m, w) :: rest) = drop m rest := by simp [drop]
      rw [hd, ih, lookup_cons_eq]
      split <;> rfl
    · have hd : drop k ((m, w) :: rest) = (m, w) :: drop k rest := by simp [drop, hm]
      rw [hd, lookup_cons_eq, ih, lookup_cons_eq]
      by_cases hl : l = m
      · rw [if_pos hl, if_pos hl, if_neg (hl ▸ hm)]
      · rw [if_neg hl, if_neg hl]

end SemanticNet.Assoc
