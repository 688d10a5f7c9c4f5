import Mathlib.Data.List.DropRight
import SemanticNet.Proofs.Committing

/-!
# Records as histories

What a transaction has recorded is a matter of the calls since the last clearing
(`Staging.reflects_after`). The addresses that were created or removed are those of the calls, each
where it came first. A change waits for an address when some call gave one and no later call removed
the address (`standing`): the last one that was given counts, and it stands where the first one did.
-/

namespace SemanticNet

/-! ## Lists without repetitions -/

section

variable {α : Type} [BEq α] [LawfulBEq α]

/-- What comes last is a repetition if it came before. -/
theorem eraseDups_concat (as : List α) (a : α) :
    (as ++ [a]).eraseDups = if a ∈ as then as.eraseDups else as.eraseDups ++ [a] := by
  rw [List.eraseDups_append, List.removeAll]
  by_cases ha : a ∈ as <;> simp [ha, List.eraseDups_cons]

theorem eraseDups_filter (p : α → Bool) (as : List α) :
    (as.filter p).eraseDups = as.eraseDups.filter p := by
  -- the list gets shorter by more than its head, so the induction is on its length
  induction hn : as.length using Nat.strongRecOn generalizing as with
  | _ n ih =>
    cases as with
    | nil => simp
    | cons a as =>
      have hlt : (as.filter fun b => !b == a).length < n := by
        have := List.length_filter_le (fun b => !b == a) as
        rw [List.length_cons] at hn
        omega
      have hrest := ih _ hlt _ rfl
      rw [List.eraseDups_cons, List.filter_cons, List.filter_cons, ← hrest, List.filter_filter]
      by_cases hp : p a = true
      · rw [if_pos hp, if_pos hp, List.eraseDups_cons, List.filter_filter]
        simp only [Bool.and_comm]
      · rw [if_neg hp, if_neg hp]
        congr 1
        refine List.filter_congr fun b _ => ?_
        by_cases hb : b = a
        · subst hb
          simp [hp]
        · simp [hb]

end

/-! ## Rolls -/

namespace Roll

variable {r : Roll} {as : List Address} {a : Address}

/-- The roll has the addresses of the list, each where it came first, and its set agrees. -/
structure Lists (r : Roll) (as : List Address) : Prop where
  order : r.order = as.eraseDups
  known : ∀ a, a ∈ r.known ↔ a ∈ as

theorem lists_nil : ({} : Roll).Lists [] :=
  ⟨List.eraseDups_nil.symm, fun _ => by simp⟩

theorem Lists.isNew (h : r.Lists as) (a : Address) : (r.enter a).1 = true ↔ a ∉ as := by
  rw [enter, ← h.known a]
  by_cases ha : a ∈ r.known <;> simp [ha]

theorem Lists.enter (h : r.Lists as) (a : Address) : (r.enter a).2.Lists (as ++ [a]) := by
  rw [Roll.enter]
  by_cases ha : a ∈ r.known
  · have hmem := (h.known a).1 ha
    rw [if_pos ha]
    refine ⟨?_, fun b => ?_⟩
    · rw [eraseDups_concat, if_pos hmem, h.order]
    · rw [h.known, List.mem_append, List.mem_singleton]
      exact ⟨.inl, fun hb => hb.elim id fun heq => heq ▸ hmem⟩
  · have hmem : a ∉ as := fun hmem => ha ((h.known a).2 hmem)
    rw [if_neg ha]
    refine ⟨?_, fun b => ?_⟩
    · rw [eraseDups_concat, if_neg hmem, h.order]
    · rw [Std.ExtTreeSet.mem_insert, Std.LawfulEqCmp.compare_eq_iff_eq, h.known, List.mem_append,
        List.mem_singleton, or_comm, eq_comm]

end Roll

/-! ## Changes that stand -/

namespace Assoc

variable {α β : Type} [DecidableEq α] {k : α} {v : β} {kvs : List (α × β)}

theorem keys_put : (put k v kvs).map Prod.fst
    = if k ∈ kvs.map Prod.fst then kvs.map Prod.fst else kvs.map Prod.fst ++ [k] := by
  induction kvs with
  | nil => rfl
  | cons p rest ih =>
    obtain ⟨l, w⟩ := p
    by_cases hlk : l = k
    · simp [put, hlk]
    · rw [put, if_neg hlk, List.map_cons, ih, List.map_cons]
      by_cases hk : k ∈ rest.map Prod.fst
      · rw [if_pos hk, if_pos (List.mem_cons_of_mem _ hk)]
      · rw [if_neg hk, if_neg, List.cons_append]
        rw [List.mem_cons, not_or]
        exact ⟨Ne.symm hlk, hk⟩

theorem keys_drop :
    (drop k kvs).map Prod.fst = (kvs.map Prod.fst).filter fun l => decide (l ≠ k) := by
  rw [drop, List.filter_map]
  rfl

end Assoc

namespace Staging

/-- What is said about one sort of changes: a value for an address, or that there is none any
more. -/
inductive Note (β : Type) where
  | put (a : Address) (v : β)
  | drop (a : Address)

variable {β : Type} {notes : List (Note β)} {kvs : List (Address × β)} {a : Address} {v : β}

def Note.drops : Note β → Address → Bool
  | drop a, b => a = b
  | put _ _, _ => false

/-- The values that were given, without those of addresses that were dropped later. -/
def standing : List (Note β) → List (Address × β)
  | [] => []
  | .drop _ :: later => standing later
  | .put a v :: later =>
    if later.any (·.drops a) then standing later else (a, v) :: standing later

theorem standing_concat_put : standing (notes ++ [.put a v]) = standing notes ++ [(a, v)] := by
  induction notes with
  | nil => rfl
  | cons n notes ih =>
    cases n with
    | drop b => exact ih
    | put b w =>
      have hany : (notes ++ [Note.put a v]).any (·.drops b) = notes.any (·.drops b) := by
        simp [List.any_append, Note.drops]
      rw [List.cons_append, standing, standing, hany, ih]
      split <;> rfl

theorem standing_concat_drop :
    standing (notes ++ [.drop a]) = Assoc.drop a (standing notes) := by
  induction notes with
  | nil => rfl
  | cons n notes ih =>
    cases n with
    | drop b => exact ih
    | put b w =>
      have hany : (notes ++ [Note.drop a]).any (·.drops b)
          = (notes.any (·.drops b) || decide (a = b)) := by
        simp [List.any_append, Note.drops]
      rw [List.cons_append, standing, standing, hany, ih]
      by_cases hlater : notes.any (·.drops b) = true
      · simp [hlater]
      · by_cases hab : a = b
        · subst hab
          simp [hlater, Assoc.drop]
        · simp [hlater, hab, Assoc.drop, Ne.symm hab]

/-- The pairs have, for each address with a value that stands, the last one, in the order in which
the addresses were given the first. -/
structure Sums (kvs : List (Address × β)) (notes : List (Note β)) : Prop where
  keys : kvs.map Prod.fst = ((standing notes).map Prod.fst).eraseDups
  value : ∀ a, kvs.lookup a = (standing notes).reverse.lookup a

theorem sums_nil : Sums ([] : List (Address × β)) [] :=
  ⟨List.eraseDups_nil.symm, fun _ => rfl⟩

theorem Sums.put (h : Sums kvs notes) (a : Address) (v : β) :
    Sums (Assoc.put a v kvs) (notes ++ [.put a v]) := by
  refine ⟨?_, fun b => ?_⟩
  · rw [standing_concat_put, Assoc.keys_put, h.keys, List.map_append, List.map_singleton,
      eraseDups_concat]
    simp only [List.mem_eraseDups]
  · rw [standing_concat_put, Assoc.lookup_put, List.reverse_append, List.reverse_singleton,
      List.singleton_append, Assoc.lookup_cons_eq, h.value]

theorem Sums.drop (h : Sums kvs notes) (a : Address) :
    Sums (Assoc.drop a kvs) (notes ++ [.drop a]) := by
  refine ⟨?_, fun b => ?_⟩
  · rw [standing_concat_drop, Assoc.keys_drop, Assoc.keys_drop, h.keys, eraseDups_filter]
  · have hreverse : (Assoc.drop a (standing notes)).reverse
        = Assoc.drop a (standing notes).reverse := List.filter_reverse.symm
    rw [standing_concat_drop, hreverse, Assoc.lookup_drop, Assoc.lookup_drop, h.value]

/-! ## Calls -/

/-- What is recorded by one call. -/
inductive Call where
  | created (a : Address)
  | removed (a : Address)
  | revision (a : Address) (r : Revision)
  | content (a : Address) (bytes : Bytes)
  | clear
deriving DecidableEq

namespace Call

/-- A call, and its answer: whether an address that is recorded is new. -/
def run : Call → Staging → Option Bool × Staging
  | created a, b => ((b.recordCreated a).1, (b.recordCreated a).2)
  | removed a, b => ((b.recordRemoved a).1, (b.recordRemoved a).2)
  | revision a r, b => (none, b.recordRevision a r)
  | content a bytes, b => (none, b.recordContent a bytes)
  | clear, _ => (none, {})

def creation? : Call → Option Address
  | created a => some a
  | _ => none

def removal? : Call → Option Address
  | removed a => some a
  | _ => none

/-- What a call says about revisions. -/
def revision? : Call → Option (Note Revision)
  | revision a r => some (.put a r)
  | removed a => some (.drop a)
  | _ => none

/-- What a call says about contents. -/
def content? : Call → Option (Note Bytes)
  | content a bytes => some (.put a bytes)
  | removed a => some (.drop a)
  | _ => none

end Call

/-- What calls that follow each other leave of an empty record. -/
def after (calls : List Call) : Staging := calls.foldl (fun b k => (k.run b).2) {}

/-- The calls since the last clearing. -/
def recent (calls : List Call) : List Call := calls.rtakeWhile (· ≠ .clear)

/-- The record is what the calls say, all of them since the last clearing. -/
structure Follows (b : Staging) (calls : List Call) : Prop where
  creations : b.creations.Lists (calls.filterMap Call.creation?)
  removals : b.removals.Lists (calls.filterMap Call.removal?)
  revisions : Sums b.revisions (calls.filterMap Call.revision?)
  contents : Sums b.contents (calls.filterMap Call.content?)

variable {b : Staging} {calls : List Call}

theorem follows_nil : ({} : Staging).Follows [] :=
  ⟨Roll.lists_nil, Roll.lists_nil, sums_nil, sums_nil⟩

/-- A call says something or nothing about each part of the record, and changes it accordingly. -/
theorem Follows.run (h : b.Follows calls) {k : Call} (hk : k ≠ .clear) :
    (k.run b).2.Follows (calls ++ [k]) := by
  have hsame : ∀ {γ : Type} (f : Call → Option γ), f k = none →
      (calls ++ [k]).filterMap f = calls.filterMap f := by
    intro γ f hf
    rw [List.filterMap_append, List.filterMap_cons_none hf, List.filterMap_nil, List.append_nil]
  have hmore : ∀ {γ : Type} (f : Call → Option γ) {n : γ}, f k = some n →
      (calls ++ [k]).filterMap f = calls.filterMap f ++ [n] := by
    intro γ f n hf
    rw [List.filterMap_append, List.filterMap_cons_some hf, List.filterMap_nil]
  cases k with
  | created a =>
    exact ⟨hmore Call.creation? rfl ▸ h.creations.enter a, hsame Call.removal? rfl ▸ h.removals,
      hsame Call.revision? rfl ▸ h.revisions, hsame Call.content? rfl ▸ h.contents⟩
  | removed a =>
    exact ⟨hsame Call.creation? rfl ▸ h.creations, hmore Call.removal? rfl ▸ h.removals.enter a,
      hmore Call.revision? rfl ▸ h.revisions.drop a, hmore Call.content? rfl ▸ h.contents.drop a⟩
  | revision a r =>
    exact ⟨hsame Call.creation? rfl ▸ h.creations, hsame Call.removal? rfl ▸ h.removals,
      hmore Call.revision? rfl ▸ h.revisions.put a r, hsame Call.content? rfl ▸ h.contents⟩
  | content a bytes =>
    exact ⟨hsame Call.creation? rfl ▸ h.creations, hsame Call.removal? rfl ▸ h.removals,
      hsame Call.revision? rfl ▸ h.revisions, hmore Call.content? rfl ▸ h.contents.put a bytes⟩
  | clear => exact absurd rfl hk

/-- Whatever is recorded, the record follows the calls since the last clearing. -/
theorem follows_after (calls : List Call) : (after calls).Follows (recent calls) := by
  induction calls using List.reverseRecOn with
  | nil => exact follows_nil
  | append_singleton calls k ih =>
    rw [after, List.foldl_concat, recent, List.rtakeWhile_concat]
    by_cases hk : k = .clear
    · subst hk
      exact follows_nil
    · rw [if_pos (by simpa using hk)]
      exact ih.run hk

theorem recorded_after (calls : List Call) : (after calls).Recorded := by
  induction calls using List.reverseRecOn with
  | nil => exact .nothing
  | append_singleton calls k ih =>
    rw [after, List.foldl_concat]
    cases k with
    | created a => exact .created a ih
    | removed a => exact .removed a ih
    | revision a r => exact .revision a r ih
    | content a bytes => exact .content a bytes ih
    | clear => exact .nothing

theorem mem_addresses :
    a ∈ b.addresses ↔ a ∈ b.revisions.map Prod.fst ∨ a ∈ b.contents.map Prod.fst := by
  rw [addresses, Std.ExtTreeSet.mem_toList, Std.ExtTreeSet.mem_ofList, List.contains_iff_mem,
    List.mem_append]

/-- What a record tells of calls. The addresses that were created or removed are listed, each once
and in the order in which they were first recorded, and one that is recorded next is new if it is
not among them. For each address that was given a revision since it was last removed there is one,
the last, and these stand in the order of the first such revisions; so it is with contents. The
addresses for which a change waits are listed in ascending order. -/
structure Reflects (b : Staging) (calls : List Call) : Prop where
  created : b.created = (calls.filterMap Call.creation?).eraseDups
  newlyCreated : ∀ a, ∃ isNew, ((Call.created a).run b).1 = some isNew ∧
    (isNew = true ↔ .created a ∉ calls)
  removed : b.removed = (calls.filterMap Call.removal?).eraseDups
  newlyRemoved : ∀ a, ∃ isNew, ((Call.removed a).run b).1 = some isNew ∧
    (isNew = true ↔ .removed a ∉ calls)
  wasRemoved : ∀ a, b.wasRemoved a = true ↔ a ∈ b.removed
  revisions : Sums b.revisions (calls.filterMap Call.revision?)
  contents : Sums b.contents (calls.filterMap Call.content?)
  distinct : b.Distinct
  sorted : b.addresses.Pairwise (·.packed < ·.packed)
  waiting : ∀ a, a ∈ b.addresses ↔
    a ∈ b.revisions.map Prod.fst ∨ a ∈ b.contents.map Prod.fst

theorem mem_filterMap_iff {f : Call → Option Address} {k : Call} (hf : ∀ l, f l = some a ↔ l = k) :
    a ∈ calls.filterMap f ↔ k ∈ calls := by
  simp only [List.mem_filterMap, hf, exists_eq_right]

theorem mem_creations : a ∈ calls.filterMap Call.creation? ↔ .created a ∈ calls :=
  mem_filterMap_iff fun k => by cases k <;> simp [Call.creation?]

theorem mem_removals : a ∈ calls.filterMap Call.removal? ↔ .removed a ∈ calls :=
  mem_filterMap_iff fun k => by cases k <;> simp [Call.removal?]

/-- Whatever is recorded, and however often it is cleared away, the record tells of the calls since
the last clearing. -/
theorem reflects_after (calls : List Call) : (after calls).Reflects (recent calls) := by
  have h := follows_after calls
  refine ⟨h.creations.order, fun a => ⟨_, rfl, ?_⟩, h.removals.order, fun a => ⟨_, rfl, ?_⟩,
    fun a => ?_, h.revisions, h.contents, (recorded_after calls).distinct,
    Address.pairwise_toList _, fun a => mem_addresses⟩
  · rw [← mem_creations]
    exact h.creations.isNew a
  · rw [← mem_removals]
    exact h.removals.isNew a
  · rw [wasRemoved, decide_eq_true_iff, h.removals.known, removed, h.removals.order,
      List.mem_eraseDups]

/-- An address that is removed and staged again comes after one that was staged in between. -/
example :
    let b := after [.content ⟨1, 1⟩ [1], .removed ⟨1, 1⟩, .content ⟨1, 2⟩ [2], .content ⟨1, 1⟩ [3],
      .content ⟨1, 2⟩ [4], .removed ⟨1, 1⟩, .content ⟨1, 1⟩ [5]]
    b.contents = [(⟨1, 2⟩, [4]), (⟨1, 1⟩, [5])] ∧ b.removed = [⟨1, 1⟩] ∧
      b.addresses = [⟨1, 1⟩, ⟨1, 2⟩] := by
  decide +kernel

end Staging

end SemanticNet
