/-!
# Access levels

A caller and an element each carry a read and a write level. A caller reads an element when its
read level is at least the element's, and likewise for writing.

Levels run from 0 to 15 (`Access.InUse`). All that makes levels keeps to that, but for the reader of
JSON, which takes any two bytes as they are: the type holds what can be read, and the bound is a
property of it.
-/

namespace SemanticNet

/-- A read level and a write level. -/
structure Access where
  read : UInt8
  write : UInt8
deriving DecidableEq, Inhabited, Repr

namespace Access

/-- The highest level that fits half a byte. -/
def maxLevel : UInt8 := 15

/-- The levels that reach only elements made at level zero. -/
def lowest : Access := ⟨0, 0⟩

/-- The levels that reach every element. -/
def highest : Access := ⟨maxLevel, maxLevel⟩

/-- Levels from any two bytes: what exceeds the highest level becomes the highest level. -/
def clamp (read write : UInt8) : Access := ⟨min read maxLevel, min write maxLevel⟩

/-- Both levels in one byte, the read level in the upper half. -/
def packed (l : Access) : UInt8 := (l.read <<< 4) ||| l.write

/-- The levels held in one byte. -/
def ofPacked (b : UInt8) : Access := ⟨b >>> 4, b &&& 0x0F⟩

/-- Whether a caller with levels `l` may read an element with levels `e`. -/
def mayRead (l e : Access) : Bool := e.read ≤ l.read

/-- Whether a caller with levels `l` may write an element with levels `e`. -/
def mayWrite (l e : Access) : Bool := e.write ≤ l.write

instance : ToString Access := ⟨fun l => s!"r{l.read}w{l.write}"⟩

/-- Neither level exceeds the highest one. -/
def InUse (l : Access) : Prop := l.read ≤ maxLevel ∧ l.write ≤ maxLevel

theorem inUse_clamp (read write : UInt8) : (clamp read write).InUse := by
  have hmin : ∀ n : UInt8, min n maxLevel ≤ maxLevel := by
    intro n
    show (if n ≤ maxLevel then n else maxLevel) ≤ maxLevel
    split
    next hle => exact hle
    next => exact UInt8.le_refl maxLevel
  exact ⟨hmin read, hmin write⟩

theorem inUse_lowest : lowest.InUse := inUse_clamp 0 0

theorem inUse_highest : highest.InUse := inUse_clamp maxLevel maxLevel

theorem inUse_ofPacked (b : UInt8) : (ofPacked b).InUse := by
  have h : ∀ b : BitVec 8, b >>> 4 ≤ 15#8 ∧ b &&& 0x0F#8 ≤ 15#8 := by decide
  constructor
  · simpa [ofPacked, maxLevel, UInt8.le_iff_toBitVec_le] using (h b.toBitVec).1
  · simpa [ofPacked, maxLevel, UInt8.le_iff_toBitVec_le] using (h b.toBitVec).2

/-- One byte is enough for levels in use. -/
theorem ofPacked_packed {l : Access} (h : l.InUse) : ofPacked l.packed = l := by
  obtain ⟨r, w⟩ := l
  obtain ⟨hr, hw⟩ := h
  have hall : ∀ r w : Fin 16, ofPacked (packed ⟨.ofNat r, .ofNat w⟩) = ⟨.ofNat r, .ofNat w⟩ := by
    decide
  have hr' : r.toNat < 16 := Nat.lt_succ_of_le (UInt8.le_iff_toNat_le.1 hr)
  have hw' : w.toNat < 16 := Nat.lt_succ_of_le (UInt8.le_iff_toNat_le.1 hw)
  have := hall ⟨r.toNat, hr'⟩ ⟨w.toNat, hw'⟩
  simpa using this

end Access

end SemanticNet
