import Std.Data.ExtTreeMap
import Std.Data.ExtTreeSet
import SemanticNet.Address

/-!
# Link contents

The contents of links, found by address, by their bytes, or by a part of their bytes. Links are
grouped by a hash of their content, and a search by bytes compares the bytes themselves, so it is
right whatever the hash: `Contents` takes the hash as a parameter.
-/

namespace SemanticNet

/-- A string of bytes. -/
abbrev Bytes := List UInt8

/-- The contents of links: `entries` holds them by address, `index` the addresses by hash. -/
structure Contents (hash : Bytes → UInt64) where
  entries : Std.ExtTreeMap Address Bytes := ∅
  index : Std.ExtTreeMap UInt64 (List Address) := ∅

namespace Contents

variable {hash : Bytes → UInt64}

instance : Inhabited (Contents hash) := ⟨{}⟩

/-- The content of a link, if it has any. -/
def get? (c : Contents hash) (a : Address) : Option Bytes := c.entries[a]?

/-- The number of links with content. -/
def size (c : Contents hash) : Nat := c.entries.size

/-- Every link with content, in address order. -/
def toList (c : Contents hash) : List (Address × Bytes) := c.entries.toList

/-- Takes a link out of the group of a hash. A group that becomes empty goes. -/
def unindex (index : Std.ExtTreeMap UInt64 (List Address)) (h : UInt64) (a : Address) :
    Std.ExtTreeMap UInt64 (List Address) :=
  index.alter h fun
    | none => none
    | some group =>
      let rest := group.filter (· ≠ a)
      if rest.isEmpty then none else some rest

/-- Puts a link into the group of a hash, after the links that are there. -/
def reindex (index : Std.ExtTreeMap UInt64 (List Address)) (h : UInt64) (a : Address) :
    Std.ExtTreeMap UInt64 (List Address) :=
  index.alter h fun group => some (group.getD [] ++ [a])

/-- Drops the content of a link, and answers whether there was any. -/
def remove (c : Contents hash) (a : Address) : Bool × Contents hash :=
  match c.get? a with
  | none => (false, c)
  | some bytes => (true, ⟨c.entries.erase a, unindex c.index (hash bytes) a⟩)

/-- Drops the content of a link. -/
def erase (c : Contents hash) (a : Address) : Contents hash :=
  match c.get? a with
  | none => c
  | some bytes => ⟨c.entries.erase a, unindex c.index (hash bytes) a⟩

/-- Replaces the content of a link. -/
def set (c : Contents hash) (a : Address) (bytes : Bytes) : Contents hash :=
  let c := c.erase a
  ⟨c.entries.insert a bytes, reindex c.index (hash bytes) a⟩

theorem remove_eq (c : Contents hash) (a : Address) :
    c.remove a = ((c.get? a).isSome, c.erase a) := by
  rw [remove, erase]
  cases c.get? a <;> rfl

theorem get?_erase (c : Contents hash) (a b : Address) :
    (c.erase a).get? b = if a = b then none else c.get? b := by
  unfold erase
  cases h : c.get? a with
  | none =>
    by_cases hab : a = b
    · subst hab
      rw [if_pos rfl]
      exact h
    · rw [if_neg hab]
  | some bytes =>
    show (c.entries.erase a)[b]? = _
    rw [Std.ExtTreeMap.getElem?_erase]
    simp only [Std.compare_eq_iff_eq]
    rfl

/-- A link has the content that was set for it last. -/
theorem get?_set (c : Contents hash) (a b : Address) (bytes : Bytes) :
    (c.set a bytes).get? b = if a = b then some bytes else c.get? b := by
  show ((c.erase a).entries.insert a bytes)[b]? = _
  rw [Std.ExtTreeMap.getElem?_insert]
  simp only [Std.compare_eq_iff_eq]
  by_cases hab : a = b
  · rw [if_pos hab, if_pos hab]
  · rw [if_neg hab, if_neg hab]
    exact (c.get?_erase a b).trans (if_neg hab)

/-- The links whose content is `bytes`, in address order. -/
def find (c : Contents hash) (bytes : Bytes) : List Address :=
  let group := c.index[hash bytes]?.getD []
  (Std.ExtTreeSet.ofList (group.filter fun a => c.get? a == some bytes) compare).toList

/-- Whether `needle` is a contiguous part of `bytes`. -/
def contains (needle : Bytes) : Bytes → Bool
  | [] => needle.isEmpty
  | b :: rest => needle.isPrefixOf (b :: rest) || contains needle rest

/-- The links whose content contains `needle`, in address order. -/
def findContaining (c : Contents hash) (needle : Bytes) : List Address :=
  (c.toList.filter fun entry => contains needle entry.2).map Prod.fst

/-- The contents that contain `needle`, in ascending order and each once. -/
def contentsContaining (c : Contents hash) (needle : Bytes) : List Bytes :=
  (Std.ExtTreeSet.ofList ((c.toList.map Prod.snd).filter (contains needle)) compare).toList

end Contents

/-- The hash by which links are grouped. Each byte is mixed in and spread by a multiplication. -/
def byteHash (bytes : Bytes) : UInt64 :=
  bytes.foldl (fun h b => (h ^^^ b.toUInt64) * 0x100000001B3) 0xCBF29CE484222325

end SemanticNet
