import SemanticNet.Access
import SemanticNet.Address
import SemanticNet.ElementType.Basic
import SemanticNet.Json.Basic

/-!
# Addresses, types and levels as JSON

A type is an integer, an address and a pair of levels are objects of two fields. Reading ignores
other fields, and also takes an array of the two values in order. Levels are read as they are, so a
value that no clamping produced is possible here.
-/

namespace SemanticNet

namespace Json

def ofNat (n : Nat) : Json := integer n

/-- An integer that is not negative and less than `bound`. -/
def natBelow? (bound : Nat) : Json → Option Nat
  | integer (.ofNat n) => if n < bound then some n else none
  | _ => none

/-- The value of a field that occurs once. -/
def unique? (name : String) (fields : List (String × Json)) : Option Json :=
  match fields.filter (·.1 = name) with
  | [(_, v)] => some v
  | _ => none

/-- Two values, either as fields of the given names or in an array. -/
def pair? (first second : String) : Json → Option (Json × Json)
  | object fields => return (← unique? first fields, ← unique? second fields)
  | array [v, w] => some (v, w)
  | _ => none

end Json

def ElementType.toJson (t : ElementType) : Json := .ofNat t.bits.toNat

def ElementType.ofJson? (v : Json) : Option ElementType :=
  (v.natBelow? 65536).map fun n => ⟨.ofNat n⟩

def Address.toJson (a : Address) : Json :=
  .object [("seg", .ofNat a.segment.toNat), ("offset", .ofNat a.offset.toNat)]

def Address.ofJson? (v : Json) : Option Address := do
  let (s, o) ← v.pair? "seg" "offset"
  return ⟨.ofNat (← s.natBelow? 65536), .ofNat (← o.natBelow? 65536)⟩

def Access.toJson (l : Access) : Json :=
  .object [("read", .ofNat l.read.toNat), ("write", .ofNat l.write.toNat)]

def Access.ofJson? (v : Json) : Option Access := do
  let (r, w) ← v.pair? "read" "write"
  return ⟨.ofNat (← r.natBelow? 256), .ofNat (← w.natBelow? 256)⟩

theorem Json.natBelow?_ofNat {n bound : Nat} (h : n < bound) :
    (Json.ofNat n).natBelow? bound = some n := by
  change (if n < bound then some n else none) = some n
  rw [if_pos h]

theorem ElementType.ofJson?_toJson (t : ElementType) : ofJson? t.toJson = some t := by
  simp [ofJson?, toJson, Json.natBelow?_ofNat t.bits.toNat_lt]

theorem Address.ofJson?_toJson (a : Address) : ofJson? a.toJson = some a := by
  simp [ofJson?, toJson, Json.pair?, Json.unique?, Json.natBelow?_ofNat a.segment.toNat_lt,
    Json.natBelow?_ofNat a.offset.toNat_lt]

theorem Access.ofJson?_toJson (l : Access) : ofJson? l.toJson = some l := by
  simp [ofJson?, toJson, Json.pair?, Json.unique?, Json.natBelow?_ofNat l.read.toNat_lt,
    Json.natBelow?_ofNat l.write.toNat_lt]

end SemanticNet
