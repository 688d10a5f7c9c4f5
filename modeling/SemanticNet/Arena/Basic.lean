import SemanticNet.Arena.Segment
import SemanticNet.Step

/-!
# The arena

All segments of one memory. `find?` is the view of the arena as a partial map from addresses to
elements: `update` changes the element at one address and leaves every other as it is
(`find?_update`). New elements go to the segment that was used last; when it is full the segments
after it are tried in a circle, and then a new segment is engaged.
-/

namespace SemanticNet

/-- Segments of equal capacity, numbered from 1, and the index of the one to try first. -/
structure Arena where
  maxSegments : Nat
  capacity : Nat
  segments : Array Segment := #[]
  hint : Nat := 0
deriving DecidableEq, Inhabited, Repr

namespace Arena

/-- An arena without segments. It may grow to one segment of one slot at the least. -/
def ofLimits (maxSegments capacity : UInt16) : Arena :=
  { maxSegments := max maxSegments.toNat 1, capacity := max capacity.toNat 1 }

def slot? (t : Arena) (a : Address) : Option Slot :=
  if a.segment = 0 then none
  else t.segments[a.segment.toNat - 1]?.bind (·.slot? a.offset)

/-- The element at an address. -/
def find? (t : Arena) (a : Address) : Option Element := (t.slot? a).bind Slot.element?

def isLive (t : Arena) (a : Address) : Bool := (t.find? a).isSome

/-- The element at an address, or why there is none. -/
def fetch (t : Arena) (a : Address) : Except Failure Element :=
  match t.find? a with
  | some e => .ok e
  | none => .error (if a.isEmpty then .invalidParams .emptyAddress else .notLive a)

/-- Applies `f` to the element at `a`, if there is one. -/
def update (t : Arena) (a : Address) (f : Element → Element) : Arena :=
  if a.segment = 0 || a.offset = 0 then t
  else { t with
    segments := t.segments.modify (a.segment.toNat - 1) fun s =>
      { s with slots := s.slots.modify (a.offset.toNat - 1) (Slot.update f) } }

/-- Applies `f` to the element at `a`, which has to be live. -/
def alter (a : Address) (f : Element → Element) : Step Arena Unit := do
  let _ ← Step.ask (·.fetch a)
  Step.change (·.update a f)

/-- The number of engaged slots. -/
def engaged (t : Arena) : Nat := t.segments.foldl (fun n s => n + s.slots.size) 0

/-- Every live element with its address, in address order. -/
def elements (t : Arena) : List (Address × Element) :=
  (t.segments.toList.zipIdx 1).flatMap fun (s, n) =>
    s.elements.map fun (offset, e) => (⟨.ofNat n, offset⟩, e)

/-- The free slots of the engaged segments. -/
def vacant (t : Arena) : Nat := t.segments.foldl (fun n s => n + (t.capacity - s.live)) 0

/-! ## Allocation -/

/-- The index of a segment and its next slot. -/
abbrev Vacancy := Nat × Segment.Vacancy

/-- The first vacant slot of the segments with the given indices. -/
def vacancyAmong? (t : Arena) : List Nat → Except Failure (Option Vacancy)
  | [] => .ok none
  | i :: rest =>
    match t.segments[i]? with
    | none => t.vacancyAmong? rest
    | some s =>
      match s.vacancy? t.capacity with
      | .error e => .error e
      | .ok none => t.vacancyAmong? rest
      | .ok (some v) => .ok (some (i, v))

/-- The order in which segments are tried: from the hint on, in a circle. -/
def trialOrder (t : Arena) : List Nat :=
  (List.range t.segments.size).map fun step => (t.hint + step) % t.segments.size

def vacancy? (t : Arena) : Except Failure (Option Vacancy) := t.vacancyAmong? t.trialOrder

/-- Puts an element into a vacant slot; the next one is looked for there first. -/
def occupy (t : Arena) (e : Element) (v : Vacancy) : Arena :=
  { t with segments := t.segments.modify v.1 (·.occupy e v.2), hint := v.1 }

/-- The address of slot `offset` in the segment with index `i`. -/
def addressAt (i : Nat) (offset : UInt16) : Address := ⟨.ofNat (i + 1), offset⟩

/-- Adds an empty segment. -/
def grow (t : Arena) : Arena :=
  { t with segments := t.segments.push {}, hint := t.segments.size }

/-- Stores a new element and returns its address. -/
def allocate (e : Element) : Step Arena Address := do
  match ← Step.ask vacancy? with
  | some v =>
    Step.change (·.occupy e v)
    return addressAt v.1 v.2.offset
  | none =>
    let t ← get
    if t.segments.size < t.maxSegments then
      let i := t.segments.size
      Step.change fun t => t.grow.occupy e (i, .fresh 1)
      return addressAt i 1
    else
      throw (.fullMemory t.maxSegments)

/-- Frees the slot of a live element. -/
def free (a : Address) : Step Arena Unit := do
  let t ← get
  if t.isLive a then
    let i := a.segment.toNat - 1
    Step.change fun t => { t with segments := t.segments.modify i (·.free a.offset), hint := i }
  else
    throw (.notLive a)

/-- Looks first at the first segment that has room, if one has. -/
def refreshHint (t : Arena) : Arena :=
  match t.segments.findIdx? (·.hasRoom t.capacity) with
  | some i => { t with hint := i }
  | none => t

/-! ## The view -/

theorem toNat_pred_inj {m n : UInt16} (hm : m ≠ 0) (hn : n ≠ 0) :
    m.toNat - 1 = n.toNat - 1 ↔ m = n := by
  have hm' : m.toNat ≠ 0 := fun h => hm (UInt16.toNat_inj.1 h)
  have hn' : n.toNat ≠ 0 := fun h => hn (UInt16.toNat_inj.1 h)
  rw [← UInt16.toNat_inj]
  omega

theorem slot?_update (t : Arena) (a b : Address) (f : Element → Element) :
    (t.update a f).slot? b = if a = b then (t.slot? b).map (Slot.update f) else t.slot? b := by
  obtain ⟨s, o⟩ := a
  obtain ⟨s', o'⟩ := b
  simp only [update, slot?, Segment.slot?, Address.mk.injEq]
  by_cases hs : s = 0
  · by_cases hs' : s' = 0
    · simp [hs, hs']
    · simp [hs, hs', Ne.symm hs']
  by_cases ho : o = 0
  · by_cases ho' : o' = 0
    · simp [ho, ho']
    · simp [ho, ho', Ne.symm ho']
  by_cases hs' : s' = 0
  · simp [hs, hs']
  by_cases ho' : o' = 0
  · simp [hs, ho, ho']
  simp only [hs, ho, hs', ho', Bool.or_self, decide_false, Bool.false_eq_true, if_false,
    Array.getElem?_modify, toNat_pred_inj hs hs']
  by_cases h : s = s'
  · subst h
    cases t.segments[s.toNat - 1]? with
    | none => simp
    | some g => simp [Array.getElem?_modify, toNat_pred_inj ho ho']
  · simp [h]

/-- An update changes one element of the view. -/
theorem find?_update (t : Arena) (a b : Address) (f : Element → Element) :
    (t.update a f).find? b = if a = b then (t.find? b).map f else t.find? b := by
  unfold find?
  rw [slot?_update]
  split
  · cases t.slot? b <;> simp
  · rfl

end Arena

end SemanticNet
