import SemanticNet.Contents

/-!
# Searching contents

As long as every content is in the group of its hash (`Contents.Indexed`), which setting and erasing
contents keep so, a search by bytes finds all links that have them (`Indexed.mem_find`). A search by
a part of the bytes goes through all contents, and lists the links (`mem_findContaining`) or the
contents (`mem_contentsContaining`). What is listed is in ascending order.
-/

namespace SemanticNet

namespace Contents

variable {hash : Bytes → UInt64} {c : Contents hash} {a b : Address} {bytes needle : Bytes}
  {index : Std.ExtTreeMap UInt64 (List Address)} {g h : UInt64}

/-! ## Groups -/

/-- Every link with content is in the group of the hash of its content. -/
def Indexed (c : Contents hash) : Prop :=
  ∀ a bytes, c.get? a = some bytes → a ∈ c.index[hash bytes]?.getD []

/-- A group that became empty is missing, which is the same as an empty one. -/
theorem getD_unindex : (unindex index h a)[g]?.getD [] =
    if h = g then (index[g]?.getD []).filter (· ≠ a) else index[g]?.getD [] := by
  have hrest : ∀ rest : List Address,
      (if rest.isEmpty then none else some rest).getD [] = rest := by
    intro rest
    cases rest <;> rfl
  rw [unindex, Std.ExtTreeMap.getElem?_alter]
  by_cases hg : h = g
  · subst hg
    cases index[h]? with
    | none => simp
    | some group => simp only [Std.compare_self, if_true, hrest, Option.getD_some]
  · simp [hg]

theorem getD_reindex : (reindex index h a)[g]?.getD [] =
    if h = g then index[g]?.getD [] ++ [a] else index[g]?.getD [] := by
  rw [reindex, Std.ExtTreeMap.getElem?_alter]
  by_cases hg : h = g
  · subst hg
    simp
  · simp [hg]

theorem mem_unindex : b ∈ (unindex index h a)[g]?.getD [] ↔
    b ∈ index[g]?.getD [] ∧ (h = g → b ≠ a) := by
  rw [getD_unindex]
  by_cases hg : h = g <;> simp [hg]

theorem mem_reindex : b ∈ (reindex index h a)[g]?.getD [] ↔
    b ∈ index[g]?.getD [] ∨ h = g ∧ b = a := by
  rw [getD_reindex]
  by_cases hg : h = g <;> simp [hg]

theorem indexed_empty : ({} : Contents hash).Indexed := by
  intro a bytes hget
  have hnone : ({} : Contents hash).get? a = none := Std.ExtTreeMap.getElem?_empty
  rw [hnone] at hget
  cases hget

theorem Indexed.erase (hc : c.Indexed) (a : Address) : (c.erase a).Indexed := by
  intro b bytes hget
  rw [get?_erase] at hget
  by_cases hab : a = b
  · simp [hab] at hget
  · rw [if_neg hab] at hget
    rw [Contents.erase]
    cases c.get? a with
    | none => exact hc b bytes hget
    | some old => exact mem_unindex.2 ⟨hc b bytes hget, fun _ => Ne.symm hab⟩

theorem Indexed.set (hc : c.Indexed) (a : Address) (bytes : Bytes) : (c.set a bytes).Indexed := by
  intro b content hget
  rw [get?_set] at hget
  refine mem_reindex.2 ?_
  by_cases hab : a = b
  · rw [if_pos hab] at hget
    cases hget
    exact .inr ⟨rfl, hab.symm⟩
  · rw [if_neg hab] at hget
    refine .inl (hc.erase a b content ?_)
    rw [get?_erase, if_neg hab, hget]

/-! ## By bytes -/

/-- The links that are found are those that have the bytes. -/
theorem Indexed.mem_find (hc : c.Indexed) : a ∈ c.find bytes ↔ c.get? a = some bytes := by
  simp only [find, Std.ExtTreeSet.mem_toList, Std.ExtTreeSet.mem_ofList, List.contains_iff_mem,
    List.mem_filter, beq_iff_eq]
  exact ⟨fun h => h.2, fun h => ⟨hc a bytes h, h⟩⟩

theorem pairwise_find (c : Contents hash) (bytes : Bytes) :
    (c.find bytes).Pairwise (·.packed < ·.packed) :=
  Address.pairwise_toList _

theorem nodup_find (c : Contents hash) (bytes : Bytes) : (c.find bytes).Nodup := by
  refine (c.pairwise_find bytes).imp fun hlt heq => ?_
  subst heq
  exact Nat.lt_irrefl _ hlt

/-! ## By a part of the bytes -/

theorem contains_iff_infix : contains needle bytes = true ↔ needle <:+: bytes := by
  induction bytes with
  | nil => simp [contains]
  | cons b bytes ih =>
    rw [contains, Bool.or_eq_true, List.isPrefixOf_iff_prefix, ih, List.infix_cons_iff]

theorem mem_findContaining :
    a ∈ c.findContaining needle ↔ ∃ bytes, c.get? a = some bytes ∧ needle <:+: bytes := by
  simp only [findContaining, toList, List.mem_map, List.mem_filter, contains_iff_infix]
  constructor
  · rintro ⟨⟨b, bytes⟩, ⟨hmem, hneedle⟩, rfl⟩
    exact ⟨bytes, Std.ExtTreeMap.mem_toList_iff_getElem?_eq_some.1 hmem, hneedle⟩
  · rintro ⟨bytes, hget, hneedle⟩
    exact ⟨(a, bytes), ⟨Std.ExtTreeMap.mem_toList_iff_getElem?_eq_some.2 hget, hneedle⟩, rfl⟩

theorem pairwise_toList (c : Contents hash) :
    c.toList.Pairwise (·.1.packed < ·.1.packed) := by
  refine Std.ExtTreeMap.ordered_keys_toList.imp fun {p q} hlt => ?_
  rwa [Address.compare_def, Nat.compare_eq_lt] at hlt

theorem pairwise_findContaining (c : Contents hash) (needle : Bytes) :
    (c.findContaining needle).Pairwise (·.packed < ·.packed) :=
  List.pairwise_map.2 (c.pairwise_toList.sublist List.filter_sublist)

/-- Strings of bytes are ordered by the first bytes in which they differ. -/
theorem compare_bytes_eq_lt {front back : Bytes} : compare front back = .lt ↔ front < back := by
  show List.compareLex compare front back = .lt ↔ _
  induction front generalizing back with
  | nil => cases back <;> simp [List.compareLex]
  | cons x front ih =>
    cases back with
    | nil => simp [List.compareLex]
    | cons y back =>
      rw [List.compareLex_cons_cons, Ordering.then_eq_lt, ih, List.cons_lt_cons_iff,
        Std.compare_eq_lt, Std.compare_eq_iff_eq]

theorem mem_contentsContaining : bytes ∈ c.contentsContaining needle ↔
    (∃ a, c.get? a = some bytes) ∧ needle <:+: bytes := by
  simp only [contentsContaining, toList, Std.ExtTreeSet.mem_toList, Std.ExtTreeSet.mem_ofList,
    List.contains_iff_mem, List.mem_filter, List.mem_map, contains_iff_infix]
  refine and_congr_left fun _ => ⟨?_, ?_⟩
  · rintro ⟨⟨a, bytes⟩, hmem, rfl⟩
    exact ⟨a, Std.ExtTreeMap.mem_toList_iff_getElem?_eq_some.1 hmem⟩
  · rintro ⟨a, hget⟩
    exact ⟨(a, bytes), Std.ExtTreeMap.mem_toList_iff_getElem?_eq_some.2 hget, rfl⟩

theorem pairwise_contentsContaining (c : Contents hash) (needle : Bytes) :
    (c.contentsContaining needle).Pairwise (· < ·) :=
  Std.ExtTreeSet.ordered_toList.imp compare_bytes_eq_lt.1

end Contents

end SemanticNet
