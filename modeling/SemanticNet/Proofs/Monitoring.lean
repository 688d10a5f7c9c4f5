import Mathlib.Data.List.Induction
import Mathlib.Data.List.Nodup
import Mathlib.Data.List.Perm.Basic
import SemanticNet.Monitors

/-!
# Monitors in use

As long as a table of monitors serves the guards and handles that were taken from it
(`Monitors.Serves`), each address that they hold has one monitor, which all of them refer to. Taking
and giving up holds, in any order, keep that so. A monitor that nobody holds is idle
(`Monitors.Idle`): it is left behind by a handle, and gone with the next release or sweep. What
comes of any calls on a new table is `Monitors.Watch.consistent_after`.
-/

namespace SemanticNet.Monitors

variable {m m' : Monitors} {a b : Address} {as : List Address} {h : Hold} {hs hs' : List Hold}
  {f : Option Monitor → Option Monitor} {k : Monitor}

/-! ## The entries of a table -/

/-- Every monitor is in the part of its address. -/
def Placed (m : Monitors) : Prop :=
  ∀ i part, m.parts[i]? = some part → ∀ a ∈ part, m.partOf a = i

/-- The addresses of all entries, part by part. -/
def addresses (m : Monitors) : List Address := m.parts.toList.flatMap (·.keys)

theorem partOf_lt (m : Monitors) (a : Address) : m.partOf a < m.parts.size :=
  Nat.mod_lt _ m.parts_pos

theorem placed_ofHash (hash : Address → UInt64) (n : Nat) : (ofHash hash n).Placed := by
  intro i part hpart a ha
  simp only [ofHash, Array.getElem?_replicate] at hpart
  split at hpart
  · obtain rfl := Option.some.inj hpart
    exact absurd ha Std.ExtTreeMap.not_mem_empty
  · cases hpart

theorem Placed.change (hm : m.Placed) (a : Address) (f : Option Monitor → Option Monitor) :
    (m.change a f).Placed := by
  intro i part hpart b hb
  have hsame : (m.change a f).partOf b = m.partOf b := by
    simp only [partOf, Monitors.change, Array.size_modify]
  rw [hsame]
  simp only [Monitors.change, Array.getElem?_modify] at hpart
  split at hpart
  next hi =>
    obtain ⟨old, hold, rfl⟩ := Option.map_eq_some_iff.1 hpart
    rw [Std.ExtTreeMap.mem_alter] at hb
    split at hb
    next hab => rw [← Std.LawfulEqOrd.eq_of_compare hab, hi]
    next => exact hm i old hold b hb
  next => exact hm i part hpart b hb

theorem Placed.swept (hm : m.Placed) : m.swept.Placed := by
  intro i part hpart b hb
  have hsame : m.swept.partOf b = m.partOf b := by
    simp only [partOf, Monitors.swept, Array.size_map]
  rw [hsame]
  simp only [Monitors.swept, Array.getElem?_map] at hpart
  obtain ⟨old, hold, rfl⟩ := Option.map_eq_some_iff.1 hpart
  obtain ⟨hb', -⟩ := Std.ExtTreeMap.mem_filter.1 hb
  exact hm i old hold b hb'

theorem find?_swept (m : Monitors) (a : Address) :
    m.swept.find? a = (m.find? a).filter (·.holds ≠ 0) := by
  have hsame : m.swept.partOf a = m.partOf a := by
    simp only [partOf, swept, Array.size_map]
  rw [find?, hsame]
  simp only [swept, find?, Array.getElem?_map, Array.getElem?_eq_getElem (m.partOf_lt a),
    Option.map_some, Option.bind_some, Std.ExtTreeMap.getElem?_filter]
  exact Option.pfilter_eq_filter

/-- The entries are those that are found. -/
theorem Placed.mem_addresses (hm : m.Placed) : a ∈ m.addresses ↔ (m.find? a).isSome := by
  have hlt := m.partOf_lt a
  have hfind : m.find? a = m.parts[m.partOf a][a]? := by
    rw [find?, Array.getElem?_eq_getElem hlt, Option.bind_some]
  rw [addresses, List.mem_flatMap, hfind, ← Std.ExtTreeMap.mem_iff_isSome_getElem?]
  constructor
  · rintro ⟨part, hpart, ha⟩
    obtain ⟨i, hi, rfl⟩ := Array.mem_iff_getElem.1 (Array.mem_toList_iff.1 hpart)
    have hin := Std.ExtTreeMap.mem_keys.1 ha
    obtain rfl := hm i _ (Array.getElem?_eq_getElem hi) a hin
    exact hin
  · intro ha
    exact ⟨_, Array.mem_toList_iff.2 (Array.getElem_mem hlt), Std.ExtTreeMap.mem_keys.2 ha⟩

theorem find?_ofHash (hash : Address → UInt64) (n : Nat) (a : Address) :
    (ofHash hash n).find? a = none := by
  rw [← Option.not_isSome_iff_eq_none, ← (placed_ofHash hash n).mem_addresses, addresses,
    List.mem_flatMap]
  rintro ⟨part, hpart, ha⟩
  obtain ⟨-, rfl⟩ := List.mem_replicate.1 (Array.toList_replicate ▸ hpart)
  simp at ha

/-- No address has two entries. -/
theorem Placed.nodup_addresses (hm : m.Placed) : m.addresses.Nodup := by
  rw [addresses, List.nodup_flatMap]
  refine ⟨fun part _ => Std.ExtTreeMap.nodup_keys, List.pairwise_iff_getElem.2 ?_⟩
  intro i j hi hj hij a ha ha'
  rw [Array.length_toList] at hi hj
  have hpart : ∀ n (hn : n < m.parts.size), a ∈ m.parts[n].keys → m.partOf a = n := by
    intro n hn hin
    exact hm n _ (Array.getElem?_eq_getElem hn) a (Std.ExtTreeMap.mem_keys.1 hin)
  have hai := hpart i hi (by simpa using ha)
  have haj := hpart j hj (by simpa using ha')
  omega

theorem length_addresses (m : Monitors) : m.addresses.length = m.size := by
  have hfold : ∀ (parts : List (Std.ExtTreeMap Address Monitor)) (n : Nat),
      parts.foldl (fun n part => n + part.size) n = n + (parts.flatMap (·.keys)).length := by
    intro parts
    induction parts with
    | nil => simp
    | cons part parts ih =>
      intro n
      rw [List.foldl_cons, ih, List.flatMap_cons, List.length_append,
        Std.ExtTreeMap.length_keys]
      omega
  rw [addresses, size, ← Array.foldl_toList, hfold, Nat.zero_add]

/-! ## What holds refer to -/

/-- The holds on an address. -/
def holdsOn (hs : List Hold) (a : Address) : List Hold := hs.filter (·.address = a)

/-- Nobody holds the monitor of an address. -/
def Free (hs : List Hold) (a : Address) : Prop := ∀ h ∈ hs, h.address ≠ a

instance : Decidable (Free hs a) := inferInstanceAs (Decidable (∀ h ∈ hs, h.address ≠ a))

/-- The monitor that a table has for an address is the one of all holds on it, and it counts them.
Where there is no monitor there are no holds. -/
def Fits (hs : List Hold) : Option Monitor → Prop
  | none => hs = []
  | some k => k.holds = hs.length ∧ ∀ h ∈ hs, h.monitor = k.id

/-- Different addresses have different monitors, and those that will be made are different again. -/
structure Apart (m : Monitors) : Prop where
  made : ∀ a k, m.find? a = some k → k.id < m.made
  inj : ∀ a b k l, m.find? a = some k → m.find? b = some l → k.id = l.id → a = b

/-- The entries of a table fit the holds that were taken from it. -/
structure Serves (m : Monitors) (hs : List Hold) : Prop where
  placed : m.Placed
  apart : m.Apart
  fits : ∀ a, Fits (holdsOn hs a) (m.find? a)

theorem holdsOn_cons_self : holdsOn (h :: hs) h.address = h :: holdsOn hs h.address :=
  List.filter_cons_of_pos (by simp)

theorem holdsOn_cons_of_ne (ha : h.address ≠ a) : holdsOn (h :: hs) a = holdsOn hs a :=
  List.filter_cons_of_neg (by simpa using ha)

theorem holdsOn_eq_nil : holdsOn hs a = [] ↔ Free hs a := by
  simp [holdsOn, Free, List.filter_eq_nil_iff]

theorem free_iff : Free hs a ↔ a ∉ hs.map (·.address) := by
  simp [Free]

theorem free_cons : Free (h :: hs) a ↔ h.address ≠ a ∧ Free hs a := List.forall_mem_cons

theorem free_append : Free (hs ++ hs') a ↔ Free hs a ∧ Free hs' a := List.forall_mem_append

theorem Fits.perm {entry : Option Monitor} (hperm : hs.Perm hs') (h : Fits hs entry) :
    Fits hs' entry := by
  cases entry with
  | none => exact List.nil_perm.1 (h ▸ hperm)
  | some k =>
    exact ⟨h.1.trans hperm.length_eq, fun h' hmem => h.2 h' (hperm.mem_iff.2 hmem)⟩

theorem Serves.perm (hm : m.Serves hs) (hperm : hs.Perm hs') : m.Serves hs' :=
  ⟨hm.placed, hm.apart, fun a => (hm.fits a).perm (hperm.filter _)⟩

/-- The monitor of a hold is in the table. -/
theorem Serves.find? (hm : m.Serves hs) (hh : h ∈ hs) :
    ∃ k, m.find? h.address = some k ∧ k.id = h.monitor := by
  have hon : h ∈ holdsOn hs h.address := List.mem_filter.2 ⟨hh, by simp⟩
  have hfits := hm.fits h.address
  cases hk : m.find? h.address with
  | none =>
    rw [hk] at hfits
    rw [show holdsOn hs h.address = [] from hfits] at hon
    cases hon
  | some k =>
    rw [hk] at hfits
    exact ⟨k, rfl, (hfits.2 h hon).symm⟩

/-- Changing an entry and the holds on its address, without making a monitor, the table serves the
holds as long as the entry fits them. -/
theorem Serves.change (hm : m.Serves hs) (hid : ∀ k ∈ f (m.find? a), ∃ l ∈ m.find? a, k.id = l.id)
    (hfits : Fits (holdsOn hs' a) (f (m.find? a)))
    (hother : ∀ b, b ≠ a → holdsOn hs' b = holdsOn hs b) : (m.change a f).Serves hs' := by
  have hids : ∀ b k, (m.change a f).find? b = some k → ∃ l, m.find? b = some l ∧ k.id = l.id := by
    intro b k hk
    rw [find?_change] at hk
    split at hk
    next hab => exact hab ▸ hid k hk
    next => exact ⟨k, hk, rfl⟩
  refine ⟨hm.placed.change a f, ⟨fun b k hk => ?_, fun b c k l hk hl heq => ?_⟩, fun b => ?_⟩
  · obtain ⟨l, hl, heq⟩ := hids b k hk
    exact heq ▸ hm.apart.made b l hl
  · obtain ⟨k', hk', hkid⟩ := hids b k hk
    obtain ⟨l', hl', hlid⟩ := hids c l hl
    exact hm.apart.inj b c k' l' hk' hl' (hkid ▸ hlid ▸ heq)
  · rw [find?_change]
    split
    next hab => exact hab ▸ hfits
    next hab => exact hother b (Ne.symm hab) ▸ hm.fits b

theorem serves_ofHash (hash : Address → UInt64) (n : Nat) : (ofHash hash n).Serves [] := by
  refine ⟨placed_ofHash hash n, ⟨fun a k hk => ?_, fun a b k l hk => ?_⟩, fun a => ?_⟩
  · rw [find?_ofHash] at hk
    cases hk
  · rw [find?_ofHash] at hk
    cases hk
  · rw [find?_ofHash]
    rfl

/-! ## Taking holds -/

theorem address_hold : (m.hold a).1.address = a := by
  rw [hold]
  cases m.find? a <;> rfl

/-- A monitor that is made now is none of those that there are. -/
theorem Apart.make (hm : m.Apart) (hmade : m'.made = m.made + 1)
    (hfind : ∀ b, m'.find? b = if a = b then some ⟨m.made, 1⟩ else m.find? b) : m'.Apart := by
  refine ⟨fun b k hb => ?_, fun b c k l hb hc heq => ?_⟩
  · rw [hfind] at hb
    rw [hmade]
    split at hb
    · obtain rfl := Option.some.inj hb
      exact Nat.lt_succ_self _
    · exact Nat.lt_succ_of_lt (hm.made b k hb)
  · rw [hfind] at hb hc
    split at hb <;> split at hc
    next hab hac => exact hab.symm.trans hac
    next =>
      obtain rfl := Option.some.inj hb
      exact absurd heq.symm (Nat.ne_of_lt (hm.made c l hc))
    next =>
      obtain rfl := Option.some.inj hc
      exact absurd heq (Nat.ne_of_lt (hm.made b k hb))
    next => exact hm.inj b c k l hb hc heq

theorem Serves.hold (hm : m.Serves hs) (a : Address) :
    (m.hold a).2.Serves ((m.hold a).1 :: hs) := by
  have hfits := hm.fits a
  have hself : ∀ i, holdsOn (⟨a, i⟩ :: hs) a = ⟨a, i⟩ :: holdsOn hs a :=
    fun i => holdsOn_cons_self
  have hother : ∀ i b, b ≠ a → holdsOn (⟨a, i⟩ :: hs) b = holdsOn hs b :=
    fun i b hb => holdsOn_cons_of_ne hb.symm
  rw [Monitors.hold]
  cases hk : m.find? a with
  | some k =>
    rw [hk] at hfits
    refine hm.change (fun k' hk' => ⟨k, hk, ?_⟩) ⟨?_, ?_⟩ (hother k.id)
    · obtain rfl := Option.some.inj hk'
      rfl
    · rw [hself, List.length_cons, hfits.1]
    · rw [hself]
      exact List.forall_mem_cons.2 ⟨rfl, hfits.2⟩
  | none =>
    rw [hk] at hfits
    -- the new monitor has the next identity, so `Serves.change` does not apply
    have hfind : ∀ b, ({ m.change a fun _ => some ⟨m.made, 1⟩ with made := m.made + 1 }
        : Monitors).find? b = if a = b then some ⟨m.made, 1⟩ else m.find? b := fun b =>
      find?_change m a b fun _ => some ⟨m.made, 1⟩
    refine ⟨hm.placed.change a _, hm.apart.make rfl hfind, fun b => ?_⟩
    rw [hfind]
    by_cases hab : a = b
    · subst hab
      rw [if_pos rfl, hself, show holdsOn hs a = [] from hfits]
      exact ⟨rfl, List.forall_mem_singleton.2 rfl⟩
    · rw [if_neg hab, hother m.made b (Ne.symm hab)]
      exact hm.fits b

theorem addresses_holdAll : (m.holdAll as).1.map (·.address) = as := by
  induction as generalizing m with
  | nil => rfl
  | cons a as ih => exact congrArg₂ List.cons address_hold ih

theorem Serves.holdAll (hm : m.Serves hs) (as : List Address) :
    (m.holdAll as).2.Serves ((m.holdAll as).1 ++ hs) := by
  induction as generalizing m hs with
  | nil => exact hm
  | cons a as ih => exact (ih (hm.hold a)).perm List.perm_middle

/-! ## Giving holds up -/

theorem Serves.unhold (hm : m.Serves (h :: hs)) : (m.unhold h).Serves hs := by
  have hfits := hm.fits h.address
  obtain ⟨k, hk, hid⟩ := hm.find? List.mem_cons_self
  rw [holdsOn_cons_self, hk] at hfits
  refine hm.change (fun k' hk' => ⟨k, hk, ?_⟩) ?_ fun b hb => ?_
  · rw [hk, Option.map_some, if_pos hid] at hk'
    obtain rfl := Option.some.inj hk'
    rfl
  · rw [hk, Option.map_some, if_pos hid]
    refine ⟨?_, fun h' hh' => hfits.2 h' (List.mem_cons_of_mem _ hh')⟩
    have hcount := hfits.1
    rw [List.length_cons] at hcount
    simp [hcount]
  · rw [holdsOn_cons_of_ne hb.symm]

theorem Fits.filter {entry : Option Monitor} (h : Fits hs entry) :
    Fits hs (entry.filter (·.holds ≠ 0)) := by
  cases entry with
  | none => exact h
  | some k =>
    by_cases h0 : k.holds = 0
    · rw [Option.filter_some, if_neg (by simpa using h0)]
      exact List.length_eq_zero_iff.1 (h.1.symm.trans h0)
    · rwa [Option.filter_some, if_pos (by simpa using h0)]

theorem Serves.dropIfFree (hm : m.Serves hs) (a : Address) : (m.dropIfFree a).Serves hs :=
  hm.change (fun k hk => ⟨k, (Option.filter_eq_some_iff.1 hk).1, rfl⟩) (hm.fits a).filter
    fun _ _ => rfl

theorem Serves.release {g : Guard} (hm : m.Serves (g.holds ++ hs)) : (m.release g).Serves hs := by
  have hfold : ∀ {gs : List Hold} {m : Monitors}, m.Serves (gs ++ hs) →
      (gs.foldl (fun m h => (m.unhold h).dropIfFree h.address) m).Serves hs := by
    intro gs
    induction gs with
    | nil => exact id
    | cons h gs ih => exact fun hm => ih (hm.unhold.dropIfFree h.address)
  exact hfold (hm.perm ((List.reverse_perm _).symm.append_right hs))

theorem Serves.swept (hm : m.Serves hs) : m.swept.Serves hs := by
  have hsub : ∀ a k, m.swept.find? a = some k → m.find? a = some k := by
    intro a k hk
    rw [find?_swept] at hk
    exact (Option.filter_eq_some_iff.1 hk).1
  refine ⟨hm.placed.swept, ⟨fun a k hk => hm.apart.made a k (hsub a k hk), fun a b k l hk hl =>
    hm.apart.inj a b k l (hsub a k hk) (hsub b l hl)⟩, fun a => ?_⟩
  rw [find?_swept]
  exact (hm.fits a).filter

/-! ## Idle monitors -/

/-- The table has a monitor for `a` that nobody holds. -/
def Idle (m : Monitors) (a : Address) : Prop := ∃ k, m.find? a = some k ∧ k.holds = 0

theorem Serves.idle_iff (hm : m.Serves hs) :
    m.Idle a ↔ a ∈ m.addresses ∧ Free hs a := by
  have hfits := hm.fits a
  rw [Idle, hm.placed.mem_addresses, ← holdsOn_eq_nil]
  cases hk : m.find? a with
  | none => simp
  | some k =>
    rw [hk] at hfits
    simp only [Option.some.injEq, exists_eq_left', Option.isSome_some, true_and]
    rw [hfits.1, List.length_eq_zero_iff]

theorem idle_change (hab : b ≠ a) : (m.change a f).Idle b ↔ m.Idle b := by
  rw [Idle, Idle, find?_change, if_neg (Ne.symm hab)]

/-- A monitor that is taken is not idle. -/
theorem idle_hold : (m.hold a).2.Idle b ↔ m.Idle b ∧ b ≠ a := by
  have hfind : (m.hold a).2.find? b = if a = b then
      some ⟨(m.hold a).1.monitor, (m.find? a).elim 0 (·.holds) + 1⟩ else m.find? b := by
    rw [hold]
    cases m.find? a with
    | some k => exact find?_change m a b _
    | none => exact find?_change m a b _
  rw [Idle, Idle, hfind]
  by_cases hab : a = b
  · subst hab
    simp
  · simp [hab, Ne.symm hab]

theorem idle_holdAll : (m.holdAll as).2.Idle b ↔ m.Idle b ∧ b ∉ as := by
  induction as generalizing m with
  | nil => simp [holdAll]
  | cons a as ih =>
    show ((m.hold a).2.holdAll as).2.Idle b ↔ _
    rw [ih, idle_hold, List.mem_cons, not_or, and_assoc]

/-- A handle that is let go of leaves its monitor idle if nobody else holds it. -/
theorem Serves.idle_unhold (hm : m.Serves (h :: hs)) :
    (m.unhold h).Idle a ↔ m.Idle a ∨ h.address = a ∧ Free hs a := by
  by_cases ha : h.address = a
  · subst ha
    have hbusy : ¬m.Idle h.address := fun hidle => (hm.idle_iff.1 hidle).2 h List.mem_cons_self rfl
    have hentry : h.address ∈ (m.unhold h).addresses := by
      obtain ⟨k, hk, -⟩ := hm.find? List.mem_cons_self
      rw [hm.unhold.placed.mem_addresses, Monitors.unhold, find?_change, if_pos rfl, hk]
      rfl
    rw [hm.unhold.idle_iff]
    simp [hbusy, hentry]
  · rw [Monitors.unhold, idle_change (Ne.symm ha)]
    simp [ha]

/-- A monitor is not idle after the release of a guard on it. -/
theorem idle_release {g : Guard} : (m.release g).Idle a ↔ m.Idle a ∧ Free g.holds a := by
  have hone : ∀ {m : Monitors} {h : Hold},
      ((m.unhold h).dropIfFree h.address).Idle a ↔ m.Idle a ∧ h.address ≠ a := by
    intro m h
    by_cases ha : h.address = a
    · subst ha
      simp [Idle, dropIfFree, find?_change, Option.filter_eq_some_iff]
    · rw [dropIfFree, idle_change (Ne.symm ha), unhold, idle_change (Ne.symm ha)]
      simp [ha]
  have hfold : ∀ {gs : List Hold} {m : Monitors},
      (gs.foldl (fun m h => (m.unhold h).dropIfFree h.address) m).Idle a ↔
        m.Idle a ∧ Free gs a := by
    intro gs
    induction gs with
    | nil => simp [Free]
    | cons h gs ih =>
      intro m
      rw [List.foldl_cons, ih, hone, free_cons, and_assoc]
  rw [release, hfold]
  simp [Free]

theorem not_idle_swept : ¬m.swept.Idle a := by
  rintro ⟨k, hk, h0⟩
  rw [find?_swept, Option.filter_eq_some_iff] at hk
  simp [h0] at hk

theorem Serves.find?_swept (hm : m.Serves hs) (a : Address) :
    m.swept.find? a = if Free hs a then none else m.find? a := by
  have hfits := hm.fits a
  rw [Monitors.find?_swept]
  simp only [← holdsOn_eq_nil]
  cases hk : m.find? a with
  | none => simp
  | some k =>
    rw [hk] at hfits
    rw [Option.filter_some, hfits.1]
    by_cases hnil : holdsOn hs a = []
    · simp [hnil]
    · simp [hnil]

/-- A sweep says how many idle monitors there were. -/
theorem Serves.fst_sweep (hm : m.Serves hs) :
    m.sweep.1 = m.addresses.countP (Free hs ·) := by
  have hkept : m.swept.addresses.Perm (m.addresses.filter (¬Free hs ·)) := by
    refine (List.perm_ext_iff_of_nodup hm.placed.swept.nodup_addresses
      (hm.placed.nodup_addresses.filter _)).2 fun a => ?_
    rw [hm.placed.swept.mem_addresses, List.mem_filter, hm.placed.mem_addresses, hm.find?_swept]
    by_cases hfree : Free hs a
    · rw [if_pos hfree, decide_eq_true_iff]
      exact ⟨nofun, fun h => absurd hfree h.2⟩
    · rw [if_neg hfree, decide_eq_true_iff]
      exact ⟨fun h => ⟨h, hfree⟩, And.left⟩
  have hsplit := List.length_eq_countP_add_countP (l := m.addresses) (Free hs ·)
  have hlength := hkept.length_eq
  rw [← List.countP_eq_length_filter] at hlength
  rw [sweep, ← length_addresses, ← length_addresses, hlength]
  simp only [decide_eq_true_eq] at hsplit
  omega

/-! ## Calls -/

/-- What is taken from a table: a guard, or a handle on one monitor. -/
inductive Grip where
  | guard (g : Guard)
  | handle (h : Hold)
deriving DecidableEq, Repr

def Grip.holds : Grip → List Hold
  | guard g => g.holds
  | handle h => [h]

/-- Gives back what was taken. -/
def giveBack (m : Monitors) : Grip → Monitors
  | .guard g => m.release g
  | .handle h => m.unhold h

theorem Serves.giveBack {grip : Grip} (hm : m.Serves (grip.holds ++ hs)) :
    (m.giveBack grip).Serves hs := by
  cases grip with
  | guard g => exact hm.release
  | handle h => exact hm.unhold

/-- Only a handle leaves a monitor idle that was not. -/
theorem Serves.idle_giveBack {grip : Grip} (hm : m.Serves (grip.holds ++ hs)) :
    (m.giveBack grip).Idle a ↔
      (m.Idle a ∧ Free hs a) ∨ ∃ h, grip = .handle h ∧ h.address = a ∧ Free hs a := by
  have hfree : m.Idle a → Free (grip.holds ++ hs) a := fun hidle => (hm.idle_iff.1 hidle).2
  rw [free_append] at hfree
  cases grip with
  | guard g =>
    show (m.release g).Idle a ↔ _
    rw [idle_release]
    simp only [reduceCtorEq, false_and, exists_false, or_false]
    exact and_congr_right fun hidle => iff_of_true (hfree hidle).1 (hfree hidle).2
  | handle h =>
    show (m.unhold h).Idle a ↔ _
    rw [Serves.idle_unhold hm]
    simp only [Grip.handle.injEq, exists_eq_left']
    exact or_congr_left (iff_self_and.2 fun hidle => (hfree hidle).2)

/-- A table, and what has been taken from it and not been given back, in the order of taking. -/
structure Watch where
  table : Monitors
  grips : List Grip

/-- A call on a table. What is dropped is told by its number among the things that are out. -/
inductive Call where
  | read (a : Address)
  | write (a : Address)
  | readAll (as : List Address)
  | writeAll (as : List Address)
  | handle (a : Address)
  | drop (i : Nat)
  | sweep
deriving DecidableEq, Repr

/-- The addresses that a guard is asked for, and whether it is to shut others out. -/
def Call.request? : Call → Option (List Address × Bool)
  | read a => some ([a], false)
  | write a => some ([a], true)
  | readAll as => some (as, false)
  | writeAll as => some (as, true)
  | handle _ | drop _ | sweep => none

/-- A call asks for a guard, or it is one of the others. -/
theorem Call.cases (c : Call) : (∃ as exclusive, c.request? = some (as, exclusive)) ∨
    (∃ a, c = .handle a) ∨ (∃ i, c = .drop i) ∨ c = .sweep := by
  cases c <;> simp [request?]

namespace Watch

variable {w : Watch} {c : Call} {calls : List Call}

/-- All holds that are out. -/
def holds (w : Watch) : List Hold := w.grips.flatMap Grip.holds

def acquire (w : Watch) (as : List Address) (exclusive : Bool) : Watch :=
  let (g, m) := w.table.acquire as exclusive
  ⟨m, w.grips ++ [.guard g]⟩

def run (w : Watch) : Call → Watch
  | .read a => w.acquire [a] false
  | .write a => w.acquire [a] true
  | .readAll as => w.acquire as false
  | .writeAll as => w.acquire as true
  | .handle a =>
    let (h, m) := w.table.hold a
    ⟨m, w.grips ++ [.handle h]⟩
  | .drop i =>
    match w.grips[i]? with
    | none => w
    | some grip => ⟨w.table.giveBack grip, w.grips.eraseIdx i⟩
  | .sweep => { w with table := w.table.sweep.2 }

/-- What calls that follow each other leave of a table of `n` parts. -/
def after (hash : Address → UInt64) (n : Nat) (calls : List Call) : Watch :=
  calls.foldl run ⟨ofHash hash n, []⟩

/-! ### What one call does -/

/-- The addresses that a guard covers. -/
def covered (as : List Address) : List Address :=
  (Std.ExtTreeSet.ofList (as.filter (!·.isEmpty)) compare).toList

theorem mem_covered : a ∈ covered as ↔ a ∈ as.filter (!·.isEmpty) := by
  rw [covered, Std.ExtTreeSet.mem_toList, Std.ExtTreeSet.mem_ofList, List.contains_iff_mem]

theorem table_acquire (w : Watch) (as : List Address) (exclusive : Bool) :
    (w.acquire as exclusive).table = (w.table.holdAll (covered as)).2 := rfl

theorem grips_acquire (w : Watch) (as : List Address) (exclusive : Bool) :
    (w.acquire as exclusive).grips = w.grips ++ [.guard ⟨(w.table.holdAll (covered as)).1,
      exclusive && !(covered as).isEmpty⟩] := rfl

theorem run_of_request {as : List Address} {exclusive : Bool}
    (hc : c.request? = some (as, exclusive)) : w.run c = w.acquire as exclusive := by
  cases c <;> simp only [Call.request?, Option.some.injEq, Prod.mk.injEq, reduceCtorEq] at hc
  all_goals
    obtain ⟨rfl, rfl⟩ := hc
    rfl

theorem holds_acquire (w : Watch) (as : List Address) (exclusive : Bool) :
    (w.acquire as exclusive).holds = w.holds ++ (w.table.holdAll (covered as)).1 := by
  rw [holds, grips_acquire, List.flatMap_append, List.flatMap_singleton]
  rfl

theorem holds_handle (w : Watch) (a : Address) :
    (w.run (.handle a)).holds = w.holds ++ [(w.table.hold a).1] := by
  rw [run, holds, List.flatMap_append, List.flatMap_singleton]
  rfl

theorem holds_drop {i : Nat} {grip : Grip} (hi : w.grips[i]? = some grip) :
    w.holds.Perm (grip.holds ++ (w.grips.eraseIdx i).flatMap Grip.holds) := by
  obtain ⟨hlt, rfl⟩ := List.getElem?_eq_some_iff.1 hi
  exact ((List.getElem_cons_eraseIdx_perm hlt).flatMap_right Grip.holds).symm

/-- Every call leaves a table that serves what is out. -/
theorem serves_run (hw : w.table.Serves w.holds) (c : Call) :
    (w.run c).table.Serves (w.run c).holds := by
  obtain ⟨as, exclusive, hc⟩ | ⟨a, rfl⟩ | ⟨i, rfl⟩ | rfl := c.cases
  · rw [run_of_request hc, holds_acquire]
    exact (hw.holdAll _).perm List.perm_append_comm
  · rw [holds_handle]
    exact (hw.hold a).perm (List.perm_append_singleton _ _).symm
  · rw [run]
    cases hi : w.grips[i]? with
    | none => exact hw
    | some grip => exact (hw.perm (holds_drop hi)).giveBack
  · exact hw.swept

theorem after_concat (hash : Address → UInt64) (n : Nat) (calls : List Call) (c : Call) :
    after hash n (calls ++ [c]) = (after hash n calls).run c := List.foldl_concat ..

theorem serves_after (hash : Address → UInt64) (n : Nat) (calls : List Call) :
    (after hash n calls).table.Serves (after hash n calls).holds := by
  induction calls using List.reverseRecOn with
  | nil => exact serves_ofHash hash n
  | append_singleton calls c ih =>
    rw [after_concat]
    exact serves_run ih c

/-- A call gives up the last hold on `a`, which is a handle. -/
def LetsGo (w : Watch) (c : Call) (a : Address) : Prop :=
  ∃ i h, c = .drop i ∧ w.grips[i]? = some (.handle h) ∧ h.address = a ∧
    Free (w.run c).holds a

theorem not_letsGo (hc : ∀ i, c ≠ .drop i) : ¬w.LetsGo c a :=
  fun ⟨i, _, h, _⟩ => hc i h

/-- A monitor is idle after a call if it was, the call is not a sweep and nobody holds it now, or if
the call lets go of the last handle on it. -/
theorem idle_run (hw : w.table.Serves w.holds) (c : Call) : (w.run c).table.Idle a ↔
    (w.table.Idle a ∧ c ≠ .sweep ∧ Free (w.run c).holds a) ∨ w.LetsGo c a := by
  have hfree : w.table.Idle a → Free w.holds a := fun hidle => (hw.idle_iff.1 hidle).2
  obtain ⟨as, exclusive, hc⟩ | ⟨b, rfl⟩ | ⟨i, rfl⟩ | rfl := c.cases
  · have hsweep : c ≠ .sweep := fun h => by simp [h, Call.request?] at hc
    have hkeeps : ¬w.LetsGo c a := not_letsGo fun i h => by simp [h, Call.request?] at hc
    rw [run_of_request hc, table_acquire, idle_holdAll, holds_acquire, free_append, free_iff,
      free_iff, addresses_holdAll, ← free_iff]
    simpa [hsweep, hkeeps] using fun hidle _ => hfree hidle
  · have hkeeps : ¬w.LetsGo (.handle b) a := not_letsGo nofun
    rw [holds_handle, free_append, free_cons, address_hold]
    show (w.table.hold b).2.Idle a ↔ _
    rw [idle_hold]
    simpa [hkeeps, Free, eq_comm] using fun hidle _ => hfree hidle
  · cases hi : w.grips[i]? with
    | none =>
      have hrun : w.run (.drop i) = w := by rw [run, hi]
      have hkeeps : ¬w.LetsGo (.drop i) a := by
        rintro ⟨j, h, hc, hj, -⟩
        cases hc
        rw [hi] at hj
        cases hj
      simpa [hrun, hkeeps] using hfree
    | some grip =>
      have hrun : w.run (.drop i) = ⟨w.table.giveBack grip, w.grips.eraseIdx i⟩ := by
        rw [run, hi]
      have hlets : w.LetsGo (.drop i) a ↔ ∃ h, grip = .handle h ∧ h.address = a ∧
          Free ((w.grips.eraseIdx i).flatMap Grip.holds) a := by
        simp [LetsGo, hrun, hi, holds]
      rw [hlets, hrun, (hw.perm (holds_drop hi)).idle_giveBack]
      simp [holds]
  · have hkeeps : ¬w.LetsGo .sweep a := not_letsGo nofun
    show w.table.swept.Idle a ↔ _
    simp [not_idle_swept, hkeeps]

/-! ### Monitors that are left behind -/

/-- The last to hold the monitor of `a` was a handle. Since it was let go of, nobody has held the
monitor, so that no guard could release it, and the table has not been swept. -/
def Abandoned (hash : Address → UInt64) (n : Nat) (calls : List Call) (a : Address) : Prop :=
  ∃ before c later, calls = before ++ c :: later ∧ (after hash n before).LetsGo c a ∧
    .sweep ∉ later ∧ ∀ mid, mid <+: later → Free (after hash n (before ++ c :: mid)).holds a

theorem abandoned_concat {hash : Address → UInt64} {n : Nat} :
    Abandoned hash n (calls ++ [c]) a ↔
      (Abandoned hash n calls a ∧ c ≠ .sweep ∧ Free (after hash n (calls ++ [c])).holds a) ∨
        (after hash n calls).LetsGo c a := by
  constructor
  · rintro ⟨before, d, later, hcalls, hlets, hsweep, hfree⟩
    rcases List.eq_nil_or_concat later with rfl | ⟨later, e, rfl⟩
    · obtain ⟨rfl, hc⟩ := List.append_inj' hcalls rfl
      obtain rfl := List.head_eq_of_cons_eq hc
      exact .inr hlets
    · rw [List.concat_eq_append] at hcalls hsweep hfree
      rw [← List.cons_append, ← List.append_assoc] at hcalls
      obtain ⟨rfl, hc⟩ := List.append_inj' hcalls rfl
      obtain rfl := List.head_eq_of_cons_eq hc
      have hlast := hfree _ (List.prefix_refl _)
      rw [← List.cons_append, ← List.append_assoc] at hlast
      rw [List.mem_append, List.mem_singleton, not_or] at hsweep
      exact .inl ⟨⟨before, d, later, rfl, hlets, hsweep.1, fun mid hmid =>
        hfree mid (hmid.trans (List.prefix_append _ _))⟩, Ne.symm hsweep.2, hlast⟩
  · rintro (⟨⟨before, d, later, rfl, hlets, hsweep, hfree⟩, hc, hlast⟩ | hlets)
    · refine ⟨before, d, later ++ [c], by simp, hlets, ?_, fun mid hmid => ?_⟩
      · rw [List.mem_append, List.mem_singleton, not_or]
        exact ⟨hsweep, Ne.symm hc⟩
      · obtain rfl | hmid := List.prefix_concat_iff.1 hmid
        · rwa [← List.cons_append, ← List.append_assoc]
        · exact hfree mid hmid
    · refine ⟨calls, c, [], rfl, hlets, List.not_mem_nil, fun mid hmid => ?_⟩
      obtain rfl := List.prefix_nil.1 hmid
      obtain ⟨-, -, -, -, -, hfree⟩ := hlets
      rwa [after_concat]

/-- The monitors that nobody holds are those that a handle has left behind. -/
theorem idle_after (hash : Address → UInt64) (n : Nat) (calls : List Call) :
    (after hash n calls).table.Idle a ↔ Abandoned hash n calls a := by
  induction calls using List.reverseRecOn with
  | nil =>
    refine ⟨fun hidle => ?_, ?_⟩
    · obtain ⟨k, hk, -⟩ := hidle
      rw [show (after hash n []).table = ofHash hash n from rfl, find?_ofHash] at hk
      cases hk
    · rintro ⟨before, c, later, hcalls, -⟩
      simp at hcalls
  | append_singleton calls c ih =>
    rw [abandoned_concat, after_concat, idle_run (serves_after hash n calls), ih]

/-- What can be relied on after calls on a table of `n` parts. -/
structure Consistent (hash : Address → UInt64) (n : Nat) (calls : List Call) : Prop where
  /-- A guard covers what it is asked for, each address once and in ascending order. -/
  covers : ∀ c as exclusive, c.request? = some (as, exclusive) → ∃ g,
    (after hash n (calls ++ [c])).grips = (after hash n calls).grips ++ [.guard g] ∧
      g.addresses.Pairwise (·.packed < ·.packed) ∧
      (∀ a, a ∈ g.addresses ↔ a ∈ as ∧ a ≠ .empty) ∧
      g.exclusive = (exclusive && !g.addresses.isEmpty)
  handles : ∀ a, ∃ h, h.address = a ∧
    (after hash n (calls ++ [.handle a])).grips = (after hash n calls).grips ++ [.handle h]
  /-- No address has two entries. -/
  nodup : (after hash n calls).table.addresses.Nodup
  /-- What is held has an entry, and its monitor is in it. -/
  held : ∀ h ∈ (after hash n calls).holds, h.address ∈ (after hash n calls).table.addresses ∧
    ∃ k, (after hash n calls).table.find? h.address = some k ∧ k.id = h.monitor
  /-- Those who hold an address have one monitor, and it is not that of another address. -/
  shared : ∀ h ∈ (after hash n calls).holds, ∀ h' ∈ (after hash n calls).holds,
    h.monitor = h'.monitor ↔ h.address = h'.address
  /-- An entry that nobody holds is left behind by a handle. -/
  leftBehind : ∀ a, a ∈ (after hash n calls).table.addresses ∧ Free (after hash n calls).holds a ↔
    Abandoned hash n calls a
  /-- A sweep finds the entries that nobody holds, says how many they are, and drops them. -/
  sweeps : (after hash n calls).table.sweep.1 =
      (after hash n calls).table.addresses.countP (Free (after hash n calls).holds ·) ∧
    ∀ a, (after hash n (calls ++ [.sweep])).table.find? a =
      if Free (after hash n calls).holds a then none else (after hash n calls).table.find? a

/-- Whatever guards and handles are taken and dropped, in whatever order, and whenever the table is
swept, its entries are right. It is not asked whether a guard would have to wait for another, so
calls that do not get into each other's way are a case of this. -/
theorem consistent_after (hash : Address → UInt64) (n : Nat) (calls : List Call) :
    Consistent hash n calls where
  covers c as exclusive hc := by
    have hcovered : ∀ x, Guard.addresses
        ⟨((after hash n calls).table.holdAll (covered as)).1, x⟩ = covered as :=
      fun x => addresses_holdAll
    refine ⟨_, by rw [after_concat, run_of_request hc, grips_acquire], ?_, fun a => ?_, ?_⟩
    · rw [hcovered]
      exact Address.pairwise_toList _
    · rw [hcovered, mem_covered]
      simp [← Address.isEmpty_iff]
    · rw [hcovered]
  handles a := ⟨_, address_hold, by rw [after_concat]; rfl⟩
  nodup := (serves_after hash n calls).placed.nodup_addresses
  held h hh := by
    have hw := serves_after hash n calls
    obtain ⟨k, hk, hid⟩ := hw.find? hh
    exact ⟨hw.placed.mem_addresses.2 (hk ▸ rfl), k, hk, hid⟩
  shared h hh h' hh' := by
    have hw := serves_after hash n calls
    obtain ⟨k, hk, hid⟩ := hw.find? hh
    obtain ⟨k', hk', hid'⟩ := hw.find? hh'
    constructor
    · intro hsame
      exact hw.apart.inj _ _ k k' hk hk' (hid.trans (hsame.trans hid'.symm))
    · intro hsame
      rw [hsame, hk'] at hk
      obtain rfl := Option.some.inj hk
      exact hid.symm.trans hid'
  leftBehind a := (serves_after hash n calls).idle_iff.symm.trans (idle_after hash n calls)
  sweeps := by
    have hw := serves_after hash n calls
    refine ⟨hw.fst_sweep, fun a => ?_⟩
    rw [after_concat]
    exact hw.find?_swept a

-- a handle keeps its monitor through a sweep, and leaves it behind for the next one
example : (after (.ofNat ·.packed) 4 [.handle ⟨1, 3⟩, .sweep, .drop 0]).table.sweep.1 = 1 := by
  decide +kernel

end Watch

end SemanticNet.Monitors
