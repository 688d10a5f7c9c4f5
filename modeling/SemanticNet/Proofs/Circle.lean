import Mathlib.Data.List.Cycle
import SemanticNet.Element

/-!
# Circles

A ring seen on its own: the link of every address in it, and the list of addresses that these links
close to a circle. Where a circle begins does not matter (`circle_of_isRotated`), so there is one
way to put an address in (`circle_insert`) and one to take an address out (`circle_remove`).
-/

namespace SemanticNet

/-- The link of each address in one ring. -/
abbrev Links := Address → Option RingLink

namespace Links

/-- `b` comes after `a`, and `a` before `b`. -/
def Joined (L : Links) (a b : Address) : Prop :=
  (L a).map (·.next) = some b ∧ (L b).map (·.prev) = some a

/-- Every two neighbours on the circle `cs` are joined, the last one and the first one as well. -/
def Circle (L : Links) (cs : List Address) : Prop := Cycle.Chain L.Joined (cs : Cycle Address)

/-- Changes the link of one address, if it has one. -/
def modify (L : Links) (c : Address) (f : RingLink → RingLink) : Links :=
  fun a => if a = c then (L a).map f else L a

/-- Puts `c` between the neighbours `a` and `b`. -/
def insert (L : Links) (c a b : Address) : Links :=
  ((L.modify c fun _ => ⟨a, b⟩).modify a ({ · with next := c })).modify b ({ · with prev := c })

/-- Joins the neighbours `a` and `b` of `c`, and clears the link of `c`. -/
def remove (L : Links) (c a b : Address) : Links :=
  ((L.modify a ({ · with next := b })).modify b ({ · with prev := a })).modify c fun _ => {}

variable {L : Links} {a b c p q : Address} {cs ds : List Address}

theorem circle_nil : L.Circle [] := Cycle.Chain.nil _

theorem circle_singleton : L.Circle [c] ↔ L c = some (.alone c) := by
  rw [Circle, Cycle.chain_singleton, Joined]
  cases L c with
  | none => simp
  | some l => cases l; simp [RingLink.alone, and_comm]

theorem circle_cons :
    L.Circle (a :: cs) ↔ (a :: cs).IsChain L.Joined ∧
      L.Joined ((a :: cs).getLast (List.cons_ne_nil a cs)) a := by
  rw [Circle, Cycle.chain_coe_cons, ← List.cons_append, List.isChain_append]
  simp [List.getLast?_eq_getLast_of_ne_nil]

/-- A circle has no beginning. -/
theorem circle_of_isRotated (h : cs ~r ds) : L.Circle cs ↔ L.Circle ds := by
  rw [Circle, Circle, Cycle.coe_eq_coe.2 h]

theorem isSome_of_circle (h : L.Circle cs) (hc : c ∈ cs) : (L c).isSome := by
  -- the circle may as well begin with `c`, which then comes after the last member
  obtain ⟨as, bs, rfl⟩ := List.append_of_mem hc
  rw [circle_of_isRotated List.isRotated_append, List.cons_append, circle_cons] at h
  have := h.2.2
  cases hL : L c with
  | none => simp [hL] at this
  | some l => rfl

/-- Only the links of its members make a circle. -/
theorem circle_congr {M : Links} (h : L.Circle cs) (hM : ∀ c ∈ cs, M c = L c) : M.Circle cs := by
  cases cs with
  | nil => exact circle_nil
  | cons b cs =>
    have hjoin : ∀ p ∈ b :: cs, ∀ q ∈ b :: cs, L.Joined p q → M.Joined p q := by
      intro p hp q hq h
      rwa [Joined, hM p hp, hM q hq]
    obtain ⟨hchain, hclose⟩ := circle_cons.1 h
    refine circle_cons.2 ⟨hchain.imp_of_mem_imp fun p q hp hq => hjoin p hp q hq, ?_⟩
    exact hjoin _ (List.getLast_mem _) _ List.mem_cons_self hclose

/-- Inside a list without repetitions, only the last member may lose its successor, and only the
first one its predecessor. -/
theorem isChain_of_inner {M : Links} (h : (b :: cs).IsChain L.Joined) (hd : (b :: cs).Nodup)
    (hnext : ∀ p ∈ b :: cs, p ≠ (b :: cs).getLast (List.cons_ne_nil b cs) →
      (M p).map (·.next) = (L p).map (·.next))
    (hprev : ∀ p ∈ b :: cs, p ≠ b → (M p).map (·.prev) = (L p).map (·.prev)) :
    (b :: cs).IsChain M.Joined := by
  rw [List.isChain_iff_getElem] at h ⊢
  intro i hi
  -- of two neighbours inside the list the left one is not the last, the right one not the first
  have hlast : (b :: cs)[i] ≠ (b :: cs).getLast (List.cons_ne_nil b cs) := by
    rw [List.getLast_eq_getElem]
    intro e
    have := hd.getElem_inj_iff.1 e
    omega
  have hfirst : (b :: cs)[i + 1] ≠ b := by
    intro e
    have hb : (b :: cs)[0] = b := rfl
    have := hd.getElem_inj_iff.1 (e.trans hb.symm)
    omega
  exact ⟨(hnext _ (List.getElem_mem _) hlast).trans (h i hi).1,
    (hprev _ (List.getElem_mem _) hfirst).trans (h i hi).2⟩

/-- Neighbours that are joined all the way repeat no address unless they come back to the first
one. -/
theorem nodup_of_isChain (h : (c :: cs).IsChain L.Joined) (hc : c ∉ cs) : (c :: cs).Nodup := by
  rw [List.isChain_iff_getElem] at h
  -- two equal members have equal predecessors, back to the first member
  have hback : ∀ (i k : Nat) (hk : i + k < (c :: cs).length),
      (c :: cs)[i] = (c :: cs)[i + k] → (c :: cs)[k] = c := by
    intro i
    induction i with
    | zero =>
      intro k hk heq
      simpa using heq.symm
    | succ i ih =>
      intro k hk heq
      have hi := (h i (by omega)).2
      have hik := (h (i + k) (by omega)).2
      have hnext : (c :: cs)[i + k + 1] = (c :: cs)[i + 1] := by
        rw [heq]
        congr 1
        omega
      rw [hnext, hi] at hik
      exact ih k (by omega) (Option.some.inj hik)
  refine List.pairwise_iff_getElem.2 fun i j hi hj hij heq => ?_
  obtain ⟨k, rfl⟩ := Nat.exists_eq_add_of_le hij.le
  have hfirst := hback i k hj heq
  obtain ⟨m, rfl⟩ : ∃ m, k = m + 1 := ⟨k - 1, by omega⟩
  rw [List.getElem_cons_succ] at hfirst
  exact hc (hfirst ▸ List.getElem_mem _)

/-! ## Putting an address in -/

theorem map_next_insert (hc : p ≠ c) (ha : p ≠ a) :
    (L.insert c a b p).map (·.next) = (L p).map (·.next) := by
  simp only [insert, modify, if_neg hc, if_neg ha]
  split <;> simp [Function.comp_def]

theorem map_prev_insert (hc : p ≠ c) (hb : p ≠ b) :
    (L.insert c a b p).map (·.prev) = (L p).map (·.prev) := by
  simp only [insert, modify, if_neg hc, if_neg hb]
  split <;> simp [Function.comp_def]

theorem joined_insert_left (ha : (L a).isSome) (hc : (L c).isSome) (hca : c ≠ a) (hcb : c ≠ b) :
    (L.insert c a b).Joined a c := by
  obtain ⟨k, hk⟩ := Option.isSome_iff_exists.1 ha
  obtain ⟨l, hl⟩ := Option.isSome_iff_exists.1 hc
  constructor
  · simp only [insert, modify, if_neg hca.symm, hk]
    split <;> simp
  · simp [insert, modify, hca, hcb, hl]

theorem joined_insert_right (hb : (L b).isSome) (hc : (L c).isSome) (hca : c ≠ a) (hcb : c ≠ b) :
    (L.insert c a b).Joined c b := by
  obtain ⟨k, hk⟩ := Option.isSome_iff_exists.1 hb
  obtain ⟨l, hl⟩ := Option.isSome_iff_exists.1 hc
  constructor
  · simp [insert, modify, hca, hcb, hl]
  · simp only [insert, modify, if_neg hcb.symm, hk]
    by_cases hab : b = a <;> simp [hab]

/-- An address that is put between the last member and the first one becomes the first one. -/
theorem circle_insert (h : L.Circle (b :: cs)) (hd : (b :: cs).Nodup) (hn : c ∉ b :: cs)
    (hc : (L c).isSome) :
    (L.insert c ((b :: cs).getLast (List.cons_ne_nil b cs)) b).Circle (c :: b :: cs) := by
  generalize ha : (b :: cs).getLast (List.cons_ne_nil b cs) = a
  have hmem : a ∈ b :: cs := ha ▸ List.getLast_mem _
  have hca : c ≠ a := fun e => hn (e ▸ hmem)
  have hcb : c ≠ b := fun e => hn (e ▸ List.mem_cons_self)
  have hsome := fun x hx => isSome_of_circle (c := x) h hx
  -- three joints: from `c` to the old list, inside it, and from its last member back to `c`
  rw [circle_cons] at h ⊢
  refine ⟨List.isChain_cons_cons.2 ⟨joined_insert_right (hsome b List.mem_cons_self) hc hca hcb,
    isChain_of_inner h.1 hd ?_ ?_⟩, ?_⟩
  · intro p hp hlast
    exact map_next_insert (fun e => hn (e ▸ hp)) (ha ▸ hlast)
  · intro p hp hfirst
    exact map_prev_insert (fun e => hn (e ▸ hp)) hfirst
  · rw [List.getLast_cons (List.cons_ne_nil b cs), ha]
    exact joined_insert_left (hsome a hmem) hc hca hcb

/-! ## Taking an address out -/

theorem map_next_remove (hc : p ≠ c) (ha : p ≠ a) :
    (L.remove c a b p).map (·.next) = (L p).map (·.next) := by
  simp only [remove, modify, if_neg hc, if_neg ha]
  split <;> simp [Function.comp_def]

theorem map_prev_remove (hc : p ≠ c) (hb : p ≠ b) :
    (L.remove c a b p).map (·.prev) = (L p).map (·.prev) := by
  simp only [remove, modify, if_neg hc, if_neg hb]
  split <;> simp [Function.comp_def]

theorem joined_remove (ha : (L a).isSome) (hb : (L b).isSome) (hca : a ≠ c) (hcb : b ≠ c) :
    (L.remove c a b).Joined a b := by
  obtain ⟨k, hk⟩ := Option.isSome_iff_exists.1 ha
  obtain ⟨l, hl⟩ := Option.isSome_iff_exists.1 hb
  constructor
  · simp only [remove, modify, if_neg hca, hk]
    split <;> simp
  · simp only [remove, modify, if_neg hcb, hl]
    by_cases hab : b = a <;> simp [hab]

/-- The first member of a circle knows its neighbours. -/
theorem link_of_circle_cons (h : L.Circle (c :: b :: cs)) :
    L c = some ⟨(b :: cs).getLast (List.cons_ne_nil b cs), b⟩ := by
  rw [circle_cons, List.isChain_cons_cons, List.getLast_cons (List.cons_ne_nil b cs)] at h
  obtain ⟨⟨hb, -⟩, ha⟩ := h
  have hnext := hb.1
  have hprev := ha.2
  cases hL : L c with
  | none => simp [hL] at hnext
  | some l =>
    cases l
    simp_all

/-- The circle stays closed without its first member. -/
theorem circle_remove (h : L.Circle (c :: b :: cs)) (hd : (c :: b :: cs).Nodup) :
    (L.remove c ((b :: cs).getLast (List.cons_ne_nil b cs)) b).Circle (b :: cs) := by
  generalize ha : (b :: cs).getLast (List.cons_ne_nil b cs) = a
  have hmem : a ∈ b :: cs := ha ▸ List.getLast_mem _
  obtain ⟨hn, hd⟩ := List.nodup_cons.1 hd
  have hca : a ≠ c := fun e => hn (e ▸ hmem)
  have hcb : b ≠ c := fun e => hn (e ▸ List.mem_cons_self)
  have hsome := fun x (hx : x ∈ b :: cs) => isSome_of_circle (c := x) h (List.mem_cons_of_mem _ hx)
  rw [circle_cons, List.isChain_cons_cons] at h
  rw [circle_cons, ha]
  refine ⟨isChain_of_inner h.1.2 hd ?_ ?_, joined_remove (hsome a hmem)
    (hsome b List.mem_cons_self) hca hcb⟩
  · intro p hp hlast
    exact map_next_remove (fun e => hn (e ▸ hp)) (ha ▸ hlast)
  · intro p hp hfirst
    exact map_prev_remove (fun e => hn (e ▸ hp)) hfirst

end Links

end SemanticNet
