import Mathlib.Data.Set.Card
import SemanticNet.Proofs.Loading
import SemanticNet.Proofs.Searching

/-!
# Contents as a table

Whatever the hash, contents answer as a table from addresses to bytes does, to which the same edits
are made (`Contents.refines_table`). The groups are exact: each holds the links whose content has
the hash, each once, and no group is empty (`Contents.Grouped`). So links with different contents of
one hash share a group, and a search by bytes finds the right ones in it.
-/

namespace SemanticNet

namespace Contents

variable {hash : Bytes → UInt64} {c : Contents hash} {a b : Address} {bytes : Bytes}
  {index : Std.ExtTreeMap UInt64 (List Address)} {g h : UInt64}

/-! ## Groups -/

theorem unindex_ne_nil (hindex : index[g]? ≠ some []) : (unindex index h a)[g]? ≠ some [] := by
  rw [unindex, Std.ExtTreeMap.getElem?_alter]
  by_cases hg : h = g
  · subst hg
    cases index[h]? with
    | none => simp
    | some group =>
      dsimp only
      cases group.filter (· ≠ a) <;> simp
  · simpa [hg] using hindex

theorem reindex_ne_nil (hindex : index[g]? ≠ some []) : (reindex index h a)[g]? ≠ some [] := by
  rw [reindex, Std.ExtTreeMap.getElem?_alter]
  by_cases hg : h = g
  · simp [hg]
  · simpa [hg] using hindex

/-- Each group holds the links whose content has the hash, each once, and no group is empty. -/
structure Grouped (c : Contents hash) : Prop where
  mem_iff : ∀ (g : UInt64) (a : Address),
    a ∈ c.index[g]?.getD [] ↔ ∃ bytes, c.get? a = some bytes ∧ hash bytes = g
  nodup : ∀ g : UInt64, (c.index[g]?.getD []).Nodup
  ne_nil : ∀ g : UInt64, c.index[g]? ≠ some []

theorem Grouped.indexed (hc : c.Grouped) : c.Indexed := fun a bytes hget =>
  (hc.mem_iff _ a).2 ⟨bytes, hget, rfl⟩

theorem grouped_empty : ({} : Contents hash).Grouped := by
  have hget : ∀ a, ({} : Contents hash).get? a = none := fun a => Std.ExtTreeMap.getElem?_empty
  constructor <;> simp [hget]

theorem Grouped.erase (hc : c.Grouped) (a : Address) : (c.erase a).Grouped := by
  cases ha : c.get? a with
  | none => rwa [show c.erase a = c by rw [Contents.erase, ha]]
  | some old =>
    have herase : (c.erase a).index = unindex c.index (hash old) a := by rw [Contents.erase, ha]
    refine ⟨fun g b => ?_, fun g => ?_, fun g => ?_⟩
    · rw [herase, mem_unindex, hc.mem_iff, get?_erase]
      by_cases hab : a = b
      · -- the link was in the group of its content only
        subst hab
        simp only [ha, if_true, Option.some.injEq, reduceCtorEq, false_and, exists_false,
          iff_false, not_and]
        rintro ⟨bytes, rfl, hg⟩ hne
        exact hne hg rfl
      · simp [hab, Ne.symm hab]
    · rw [herase, getD_unindex]
      split
      · exact (hc.nodup g).filter _
      · exact hc.nodup g
    · rw [herase]
      exact unindex_ne_nil (hc.ne_nil g)

theorem Grouped.set (hc : c.Grouped) (a : Address) (bytes : Bytes) : (c.set a bytes).Grouped := by
  have hrest := hc.erase a
  have hset : (c.set a bytes).index = reindex (c.erase a).index (hash bytes) a := rfl
  have hgone : (c.erase a).get? a = none := by rw [get?_erase, if_pos rfl]
  refine ⟨fun g b => ?_, fun g => ?_, fun g => ?_⟩
  · rw [hset, mem_reindex, hrest.mem_iff, get?_set]
    by_cases hab : a = b
    · subst hab
      simp [hgone]
    · simp [hab, Ne.symm hab, get?_erase]
  · rw [hset, getD_reindex]
    split
    · -- what was dropped before is in no group
      refine List.nodup_append.2 ⟨hrest.nodup g, List.nodup_singleton a, ?_⟩
      intro b hb b' hb' heq
      obtain rfl : b' = a := by simpa using hb'
      subst heq
      obtain ⟨bytes', hget, -⟩ := (hrest.mem_iff g b).1 hb
      rw [hgone] at hget
      cases hget
    · exact hrest.nodup g
  · rw [hset]
    exact reindex_ne_nil (hrest.ne_nil g)

/-- A search by bytes lists what it finds in the group, in order; nothing is dropped. -/
theorem Grouped.find_perm (hc : c.Grouped) (bytes : Bytes) : (c.find bytes).Perm
    ((c.index[hash bytes]?.getD []).filter fun a => c.get? a == some bytes) := by
  refine (List.perm_ext_iff_of_nodup (c.nodup_find bytes) ((hc.nodup _).filter _)).2 fun a => ?_
  rw [hc.indexed.mem_find, List.mem_filter, beq_iff_eq]
  exact ⟨fun hget => ⟨hc.indexed a bytes hget, hget⟩, fun h => h.2⟩

end Contents

/-! ## Tables -/

/-- What links have as content, without any groups. -/
abbrev Table := Address → Option Bytes

/-- A change of what one link has as content. -/
inductive Edit where
  | set (a : Address) (bytes : Bytes)
  | remove (a : Address)
deriving DecidableEq

namespace Edit

variable {σ : Type} {hash : Bytes → UInt64} {c : Contents hash} {m : Table}

/-- An edit of contents. A removal answers whether there was a content. -/
def run : Edit → Contents hash → Option Bool × Contents hash
  | set a bytes, c => (none, c.set a bytes)
  | remove a, c => ((c.remove a).1, (c.remove a).2)

/-- The same edit of a table. -/
def runOn : Edit → Table → Option Bool × Table
  | set a bytes, m => (none, Function.update m a (some bytes))
  | remove a, m => ((m a).isSome, Function.update m a none)

/-- The answers to edits that follow each other, and what they leave. -/
def runAll (step : Edit → σ → Option Bool × σ) : List Edit → σ → List (Option Bool) × σ
  | [], s => ([], s)
  | e :: es, s =>
    let (r, s) := step e s
    let (rs, s) := runAll step es s
    (r :: rs, s)

/-- The groups are exact, and each link has what the table says. -/
def Agree (c : Contents hash) (m : Table) : Prop := c.Grouped ∧ ∀ a, c.get? a = m a

/-- An edit has the same answer for contents and a table that agree, and they agree after it. -/
theorem agree_run (e : Edit) (h : Agree c m) :
    (e.run c).1 = (e.runOn m).1 ∧ Agree (e.run c).2 (e.runOn m).2 := by
  obtain ⟨hc, hm⟩ := h
  cases e with
  | set a bytes =>
    refine ⟨rfl, hc.set a bytes, fun b => ?_⟩
    show (c.set a bytes).get? b = Function.update m a (some bytes) b
    rw [Contents.get?_set, Function.update_apply, hm]
    exact if_congr eq_comm rfl rfl
  | remove a =>
    rw [run, Contents.remove_eq, runOn]
    refine ⟨by rw [hm], hc.erase a, fun b => ?_⟩
    show (c.erase a).get? b = Function.update m a none b
    rw [Contents.get?_erase, Function.update_apply, hm]
    exact if_congr eq_comm rfl rfl

theorem agree_runAll (es : List Edit) (h : Agree c m) :
    (runAll run es c).1 = (runAll runOn es m).1 ∧
      Agree (runAll run es c).2 (runAll runOn es m).2 := by
  induction es generalizing c m with
  | nil => exact ⟨rfl, h⟩
  | cons e es ih =>
    obtain ⟨hanswer, hagree⟩ := agree_run e h
    obtain ⟨hanswers, hagree⟩ := ih hagree
    exact ⟨congrArg₂ List.cons hanswer hanswers, hagree⟩

end Edit

namespace Contents

variable {hash : Bytes → UInt64} {c : Contents hash} {m : Table}

/-- Contents answer as the table does: each link has its bytes, as many links as have some are
counted, and they are listed in ascending order. There is a group for each hash that some content
has, with just the links whose content has it, each once. A search finds the links that have the
bytes, in ascending order and without dropping any from the group. -/
structure Refines (c : Contents hash) (m : Table) : Prop where
  get? : ∀ a, c.get? a = m a
  size : {a | (m a).isSome}.encard = c.size
  sorted : c.toList.Pairwise (·.1.packed < ·.1.packed)
  listed : ∀ a bytes, (a, bytes) ∈ c.toList ↔ m a = some bytes
  group : ∀ (g : UInt64) group, c.index[g]? = some group →
    group ≠ [] ∧ group.Nodup ∧ ∀ a, a ∈ group ↔ (m a).map hash = some g
  grouped : ∀ a (g : UInt64), (m a).map hash = some g → (c.index[g]?).isSome
  found : ∀ bytes, (c.find bytes).Pairwise (·.packed < ·.packed) ∧
    (∀ a, a ∈ c.find bytes ↔ m a = some bytes) ∧
    (c.find bytes).Perm ((c.index[hash bytes]?.getD []).filter fun a => c.get? a == some bytes)

theorem encard_eq_size (c : Contents hash) : {a | (c.get? a).isSome}.encard = c.size := by
  have hset : {a | (c.get? a).isSome} = ((c.toList.map Prod.fst).toFinset : Set Address) := by
    ext a
    simp only [Set.mem_ofPred_eq, List.coe_toFinset, List.mem_map, Option.isSome_iff_exists]
    constructor
    · rintro ⟨bytes, hget⟩
      exact ⟨(a, bytes), mem_toList.2 hget, rfl⟩
    · rintro ⟨⟨a, bytes⟩, hmem, rfl⟩
      exact ⟨bytes, mem_toList.1 hmem⟩
  have hlength : c.toList.length = c.size := Std.ExtTreeMap.length_toList
  rw [hset, Set.encard_coe_eq_coe_finsetCard, List.toFinset_card_of_nodup nodup_toList,
    List.length_map, hlength]

theorem refines_of_agree (h : Edit.Agree c m) : c.Refines m := by
  obtain ⟨hc, hm⟩ := h
  have hmem : ∀ (g : UInt64) a, a ∈ c.index[g]?.getD [] ↔ (m a).map hash = some g := fun g a => by
    rw [hc.mem_iff, hm, Option.map_eq_some_iff]
  refine ⟨hm, ?_, c.pairwise_toList, fun a bytes => ?_, fun g group hg => ?_, fun a g hg => ?_,
    fun bytes => ⟨c.pairwise_find bytes, fun a => ?_, hc.find_perm bytes⟩⟩
  · simp only [← hm, c.encard_eq_size]
  · rw [mem_toList, hm]
  · have hgroup : c.index[g]?.getD [] = group := by rw [hg, Option.getD_some]
    refine ⟨fun hnil => hc.ne_nil g (hnil ▸ hg), hgroup ▸ hc.nodup g, fun a => ?_⟩
    rw [← hgroup, hmem]
  · have hin := (hmem g a).2 hg
    cases hgroup : c.index[g]? with
    | some group => rfl
    | none =>
      rw [hgroup] at hin
      cases hin
  · rw [hc.indexed.mem_find, hm]

/-- Whatever the hash, contents and a table that start empty give the same answers to the same
edits, and the contents that are left answer as the table does. -/
theorem refines_table (hash : Bytes → UInt64) (es : List Edit) :
    (Edit.runAll Edit.run es ({} : Contents hash)).1
        = (Edit.runAll Edit.runOn es fun _ => none).1 ∧
      (Edit.runAll Edit.run es ({} : Contents hash)).2.Refines
        (Edit.runAll Edit.runOn es fun _ => none).2 := by
  have hnone : ∀ a, ({} : Contents hash).get? a = none := fun a => Std.ExtTreeMap.getElem?_empty
  obtain ⟨hanswers, hagree⟩ := Edit.agree_runAll es ⟨grouped_empty, hnone⟩
  exact ⟨hanswers, refines_of_agree hagree⟩

/-- A hash that puts all links into one group. -/
example :
    let c := (Edit.runAll Edit.run [.set ⟨1, 2⟩ [1], .set ⟨1, 1⟩ [2], .set ⟨1, 3⟩ [1],
      .set ⟨1, 2⟩ [1]] ({} : Contents fun _ => 0)).2
    c.index[(0 : UInt64)]? = some [⟨1, 1⟩, ⟨1, 3⟩, ⟨1, 2⟩] ∧
      c.find [1] = [⟨1, 2⟩, ⟨1, 3⟩] ∧ c.find [2] = [⟨1, 1⟩] := by
  decide +kernel

end Contents

end SemanticNet
