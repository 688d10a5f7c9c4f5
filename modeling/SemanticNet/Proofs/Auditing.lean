import SemanticNet.Proofs.Regularity
import SemanticNet.Store.Audit

/-!
# Audits

The audit of a store finds nothing exactly when the rings of the store are sound
(`Obtained.audit_exact`), also where the store was loaded from a damaged dump. That a ring lacks no
connector is never looked at: what the rings hold is among what the connectors require, each once,
so when the one is as long as the other they are the same (`held_subset`, `length_held_eq_iff`).
-/

namespace SemanticNet

namespace Arena

open Links

variable {t : Arena} {x c : Address} {d : Direction} {cs : List Address} {e : Element}
  {r : RingHead} {steps fuel : Nat}

/-! ## One ring -/

/-- A step along a ring finds nothing wrong when `c` is joined to a next member, which is the head
after as many members as are counted, or a member from which on nothing is wrong. -/
theorem auditFrom_succ_eq_nil_iff : t.auditFrom x d r c steps (fuel + 1) = [] ↔
    ∃ b, (t.linksOf x d).Joined c b ∧
      if b = r.first then steps + 1 = r.count.toNat
      else t.auditFrom x d r b (steps + 1) fuel = [] := by
  have hlink : (t.find? c).map (·.link? x d) = none ∨ (t.find? c).map (·.link? x d) = some none →
      t.linksOf x d c = none := by
    unfold linksOf
    cases t.find? c <;> simp
  rw [auditFrom]
  split
  next h => simp [Links.Joined, hlink (.inl h)]
  next h => simp [Links.Joined, hlink (.inr h)]
  next l h =>
    obtain ⟨e, he, hl⟩ := Option.map_eq_some_iff.1 h
    have hc : t.linksOf x d c = some l := by rw [linksOf, he, Option.bind_some, hl]
    have hback : (do (← (← t.find? l.next).link? x d).prev : Option Address)
        = (t.linksOf x d l.next).map (·.prev) := by
      rw [linksOf]
      cases t.find? l.next with
      | none => rfl
      | some e' => cases hl' : e'.link? x d <;> simp [hl']
    simp only [hback, Links.Joined, hc, Option.map_some, Option.some_inj, exists_eq_left',
      and_assoc]
    by_cases hprev : (t.linksOf x d l.next).map (·.prev) = some c
    · rw [if_neg (not_not.2 hprev), and_iff_right hprev]
      by_cases hend : l.next = r.first
      · by_cases hcount : steps + 1 = r.count.toNat <;> simp [hend, hcount]
      · simp [hend]
    · simp [hprev]

/-- Following a ring from `c` on finds nothing wrong when the members from there on lead back to the
head, and make up the count with those that came before. -/
theorem auditFrom_eq_nil_iff : t.auditFrom x d r c steps fuel = [] ↔
    ∃ cs, (c :: cs).IsChain (t.linksOf x d).Joined ∧
      (t.linksOf x d).Joined ((c :: cs).getLast (List.cons_ne_nil c cs)) r.first ∧
      r.first ∉ cs ∧ steps + (cs.length + 1) = r.count.toNat ∧ cs.length < fuel := by
  induction fuel generalizing c steps with
  | zero => simp [auditFrom]
  | succ fuel ih =>
    rw [auditFrom_succ_eq_nil_iff]
    constructor
    · intro hex
      obtain ⟨b, hb, hrest⟩ := hex
      by_cases hend : b = r.first
      · rw [if_pos hend] at hrest
        exact ⟨[], List.isChain_singleton c, hend ▸ hb, List.not_mem_nil, hrest, Nat.succ_pos _⟩
      · rw [if_neg hend, ih] at hrest
        obtain ⟨cs, hchain, hlast, hfirst, hcount, hfuel⟩ := hrest
        refine ⟨b :: cs, List.isChain_cons_cons.2 ⟨hb, hchain⟩, hlast,
          List.not_mem_cons_of_ne_of_not_mem (Ne.symm hend) hfirst, ?_, Nat.succ_lt_succ hfuel⟩
        rw [List.length_cons]
        omega
    · intro hex
      obtain ⟨cs, hchain, hlast, hfirst, hcount, hfuel⟩ := hex
      cases cs with
      | nil => exact ⟨r.first, hlast, by rwa [if_pos rfl]⟩
      | cons b cs =>
        obtain ⟨hb, hchain⟩ := List.isChain_cons_cons.1 hchain
        obtain ⟨hne, hfirst⟩ := not_or.1 (List.mem_cons.not.1 hfirst)
        rw [List.length_cons] at hcount hfuel
        refine ⟨b, hb, ?_⟩
        rw [if_neg (Ne.symm hne), ih]
        exact ⟨cs, hchain, hlast, hfirst, by omega, by omega⟩

/-- Nothing is wrong with a ring exactly when it is a ring. -/
theorem auditRing_eq_nil_iff (hr : t.ring? x d = some r) :
    t.auditRing x d r = [] ↔ ∃ cs, t.IsRing x d cs := by
  unfold auditRing
  by_cases hempty : r.first.isEmpty = true
  · rw [if_pos hempty]
    rw [Address.isEmpty_iff] at hempty
    constructor
    · intro hcount
      have hzero : r.count = 0 := by
        by_contra hne
        simp [hne] at hcount
      exact ⟨[], List.nodup_nil, ⟨r, hr, hempty, by rw [hzero]; rfl⟩, circle_nil⟩
    · rintro ⟨cs, hcs⟩
      obtain ⟨r', hr', hfirst, hcount⟩ := hcs.head
      obtain rfl := Option.some.inj (hr.symm.trans hr')
      cases cs with
      | nil =>
        have hzero : r.count = 0 := UInt32.toNat_inj.1 hcount
        rw [if_pos hzero]
      | cons b cs => exact absurd (hfirst.symm.trans hempty) (hcs.ne_empty List.mem_cons_self)
  · rw [if_neg hempty, auditFrom_eq_nil_iff]
    constructor
    · rintro ⟨cs, hchain, hlast, hfirst, hcount, -⟩
      refine ⟨r.first :: cs, nodup_of_isChain hchain hfirst, ⟨r, hr, rfl, ?_⟩,
        circle_cons.2 ⟨hchain, hlast⟩⟩
      rw [List.length_cons]
      omega
    · rintro ⟨cs, hcs⟩
      obtain ⟨r', hr', hfirst, hcount⟩ := hcs.head
      obtain rfl := Option.some.inj (hr.symm.trans hr')
      cases cs with
      | nil => exact absurd (Address.isEmpty_iff.2 hfirst) hempty
      | cons b cs =>
        obtain rfl : r.first = b := hfirst
        obtain ⟨hchain, hlast⟩ := circle_cons.1 hcs.closed
        rw [List.length_cons] at hcount
        exact ⟨cs, hchain, hlast, (List.nodup_cons.1 hcs.nodup).1, by omega, by omega⟩

/-- Nothing is wrong with an element when its type is known, its ends are live and its rings are
rings. -/
theorem auditElement_eq_nil_iff (he : t.find? x = some e) :
    t.auditElement x e = [] ↔ e.type.isUnknown = false ∧
      (∀ k, e.connection = some k → t.isLive k.source = true ∧ t.isLive k.target = true) ∧
      ∀ d, ∃ cs, t.IsRing x d cs := by
  have hring : ∀ d, t.auditRing x d (e.ring d) = [] ↔ ∃ cs, t.IsRing x d cs := fun d =>
    auditRing_eq_nil_iff (by rw [ring?, he]; rfl)
  have hrings : Direction.both.flatMap (fun d => t.auditRing x d (e.ring d)) = [] ↔
      ∀ d, ∃ cs, t.IsRing x d cs := by
    rw [List.flatMap_eq_nil_iff]
    simp only [hring]
    constructor
    · intro h d
      exact h d (by cases d <;> simp [Direction.both])
    · intro h d _
      exact h d
  rw [auditElement, List.append_eq_nil_iff, List.append_eq_nil_iff, hrings, and_assoc]
  refine and_congr ?_ (and_congr_left' ?_)
  · cases e.type.isUnknown <;> simp
  · cases e.connection with
    | none => simp
    | some k =>
      cases hs : t.isLive k.source <;> cases ht : t.isLive k.target <;> simp [hs, ht]

/-! ## All rings together -/

/-- The members of a ring, or none where there is no ring. -/
def ringAt (t : Arena) (x : Address) (d : Direction) : List Address :=
  match t.members x d with
  | .ok cs => cs
  | .error _ => []

/-- What the rings hold: every member, with the ring it is in. -/
def held (t : Arena) : List ((Address × Direction) × Address) :=
  t.elements.flatMap fun p =>
    Direction.both.flatMap fun d => (t.ringAt p.1 d).map fun c => ((p.1, d), c)

/-- What the connectors require: each of their places, with the connector. -/
def required (t : Arena) : List ((Address × Direction) × Address) :=
  t.elements.flatMap fun p => p.2.places.map fun q => (q, p.1)

/-- Each ring of a live element is a ring, whatever its members are. -/
def Ringed (t : Arena) : Prop := ∀ x d, (t.find? x).isSome → ∃ cs, t.IsRing x d cs

/-- The ends of live connectors are live. -/
def Ended (t : Arena) : Prop := ∀ c e k, t.find? c = some e → e.connection = some k →
  t.isLive k.source = true ∧ t.isLive k.target = true

theorem IsRing.count_eq (h : t.IsRing x d cs) (he : t.find? x = some e) :
    (e.ring d).count.toNat = cs.length := by
  obtain ⟨r, hr, -, hcount⟩ := h.head
  rw [ring?, he] at hr
  rw [← hcount, ← Option.some.inj hr]

theorem IsRing.ringAt_eq (h : t.IsRing x d cs) : t.ringAt x d = cs := by
  rw [ringAt, h.members_eq]

theorem Addressable.mem_held (h : t.Addressable) :
    ((x, d), c) ∈ t.held ↔ (t.find? x).isSome ∧ c ∈ t.ringAt x d := by
  simp only [held, List.mem_flatMap, List.mem_map, Option.isSome_iff_exists]
  constructor
  · rintro ⟨⟨x', e⟩, he, d', -, c', hc, heq⟩
    cases heq
    exact ⟨⟨e, h.mem_elements.1 he⟩, hc⟩
  · rintro ⟨⟨e, he⟩, hc⟩
    exact ⟨(x, e), h.mem_elements.2 he, d, by cases d <;> simp [Direction.both], c, hc, rfl⟩

theorem Addressable.mem_required (h : t.Addressable) :
    ((x, d), c) ∈ t.required ↔ t.Incident x d c := by
  simp only [required, List.mem_flatMap, List.mem_map, Incident]
  constructor
  · rintro ⟨⟨c', e⟩, he, q, hq, heq⟩
    cases heq
    exact ⟨e, h.mem_elements.1 he, hq⟩
  · rintro ⟨e, he, hq⟩
    exact ⟨(c, e), h.mem_elements.2 he, (x, d), hq, rfl⟩

theorem Addressable.pairwise_ne (h : t.Addressable) :
    t.elements.Pairwise fun p q => p.1 ≠ q.1 := by
  refine h.pairwise_elements.imp fun hlt heq => ?_
  rw [heq] at hlt
  exact lt_irrefl _ hlt

theorem Addressable.nodup_required (h : t.Addressable) : t.required.Nodup := by
  refine List.nodup_flatMap.2 ⟨fun p _ => ?_, h.pairwise_ne.imp fun hne => ?_⟩
  · exact Element.nodup_places.map fun q q' heq => congrArg Prod.fst heq
  · intro entry hp hq
    obtain ⟨_, -, rfl⟩ := List.mem_map.1 hp
    obtain ⟨_, -, heq⟩ := List.mem_map.1 hq
    exact hne (congrArg Prod.snd heq).symm

/-- Where all rings are rings, no entry is held twice. -/
theorem Addressable.nodup_held (h : t.Addressable) (hrings : t.Ringed) : t.held.Nodup := by
  refine List.nodup_flatMap.2 ⟨fun p hp => ?_, h.pairwise_ne.imp fun hne => ?_⟩
  · have hlive := Option.isSome_of_eq_some (h.mem_elements.1 hp)
    refine List.nodup_flatMap.2 ⟨fun d _ => ?_, ?_⟩
    · obtain ⟨cs, hcs⟩ := hrings p.1 d hlive
      rw [hcs.ringAt_eq]
      exact hcs.nodup.map fun c c' heq => congrArg Prod.snd heq
    · simp [Direction.both, Function.onFun, List.Disjoint]
  · intro entry hp hq
    simp only [List.mem_flatMap, List.mem_map] at hp hq
    obtain ⟨_, -, _, -, rfl⟩ := hp
    obtain ⟨_, -, _, -, heq⟩ := hq
    exact hne (congrArg (·.1.1) heq).symm

/-- Members of rings have to sit there. -/
theorem IsRing.incident (h : t.IsRing x d cs) (hc : c ∈ cs) : t.Incident x d c := by
  obtain ⟨e, he⟩ := h.mem_live hc
  have hlink := isSome_of_circle h.closed hc
  rw [linksOf, he, Option.bind_some, Element.link?_isSome_iff] at hlink
  exact ⟨e, he, hlink⟩

theorem held_subset (h : t.Addressable) (hrings : t.Ringed) : t.held ⊆ t.required := by
  intro entry hentry
  obtain ⟨⟨x, d⟩, c⟩ := entry
  obtain ⟨hx, hc⟩ := h.mem_held.1 hentry
  obtain ⟨cs, hcs⟩ := hrings x d hx
  rw [hcs.ringAt_eq] at hc
  exact h.mem_required.2 (hcs.incident hc)

/-- A connector sits in rings of its ends only. -/
theorem Ended.isSome_of_incident (h : t.Ended) (hc : t.Incident x d c) : (t.find? x).isSome := by
  obtain ⟨e, he, hplace⟩ := hc
  cases hk : e.connection with
  | none => simp [Element.places, hk] at hplace
  | some k =>
    obtain ⟨hsource, htarget⟩ := h c e k he hk
    rcases (Element.mem_places_iff hk).1 ⟨d, hplace⟩ with rfl | rfl
    · exact hsource
    · exact htarget

/-- As many entries are held as are required just when each ring has all the connectors that have to
sit in it. -/
theorem length_held_eq_iff (h : t.Addressable) (hrings : t.Ringed) (hends : t.Ended) :
    t.held.length = t.required.length ↔ ∀ x d c, t.Incident x d c → c ∈ t.ringAt x d := by
  have hsubperm := List.subperm_of_subset (h.nodup_held hrings) (held_subset h hrings)
  constructor
  · intro hlength x d c hc
    have hentry := (hsubperm.perm_of_length_le hlength.ge).mem_iff.2 (h.mem_required.2 hc)
    exact (h.mem_held.1 hentry).2
  · intro hmem
    refine hsubperm.length_le.antisymm (List.subperm_of_subset h.nodup_required ?_).length_le
    intro entry hentry
    obtain ⟨⟨x, d⟩, c⟩ := entry
    have hc := h.mem_required.1 hentry
    exact h.mem_held.2 ⟨hends.isSome_of_incident hc, hmem x d c hc⟩

theorem foldl_add_eq_sum {α : Type} (l : List α) (f : α → Nat) :
    l.foldl (fun n p => n + f p) 0 = (l.map f).sum := by
  rw [List.sum_eq_foldl, List.foldl_map]

/-- The rings hold as many entries as their owners count. -/
theorem length_held (h : t.Addressable) (hrings : t.Ringed) :
    t.held.length = t.audit.outgoing + t.audit.incoming := by
  have hcount : ∀ p ∈ t.elements, ∀ d, (t.ringAt p.1 d).length = (p.2.ring d).count.toNat := by
    intro p hp d
    have he := h.mem_elements.1 hp
    obtain ⟨cs, hcs⟩ := hrings p.1 d (Option.isSome_of_eq_some he)
    rw [hcs.ringAt_eq, hcs.count_eq he]
  have hboth : ∀ p ∈ t.elements, (Direction.both.flatMap fun d =>
      (t.ringAt p.1 d).map fun c => ((p.1, d), c)).length
        = p.2.outgoing.count.toNat + p.2.incoming.count.toNat := by
    intro p hp
    simp [Direction.both, hcount p hp, Element.ring]
  show _ = t.elements.foldl (fun n p => n + p.2.outgoing.count.toNat) 0
    + t.elements.foldl (fun n p => n + p.2.incoming.count.toNat) 0
  rw [foldl_add_eq_sum, foldl_add_eq_sum, ← List.sum_map_add, held, List.length_flatMap,
    List.map_congr_left hboth]

theorem length_required (t : Arena) :
    t.required.length = t.elements.foldl (fun n p => n + p.2.places.length) 0 := by
  simp [required, List.length_flatMap, foldl_add_eq_sum]

/-- Nothing is wrong with any element. -/
theorem auditElements_eq_nil_iff (h : t.Regular) :
    t.elements.flatMap (fun (a, e) => t.auditElement a e) = [] ↔ t.Ringed ∧ t.Ended := by
  have hmem : ∀ {a e}, (a, e) ∈ t.elements ↔ t.find? a = some e := h.addressable.mem_elements
  rw [List.flatMap_eq_nil_iff]
  constructor
  · intro hnil
    refine ⟨fun x d hx => ?_, fun c e k he hk => ?_⟩
    · obtain ⟨e, he⟩ := Option.isSome_iff_exists.1 hx
      exact ((auditElement_eq_nil_iff he).1 (hnil _ (hmem.2 he))).2.2 d
    · exact ((auditElement_eq_nil_iff he).1 (hnil _ (hmem.2 he))).2.1 k hk
  · intro hsound p hp
    obtain ⟨x, e⟩ := p
    have he := hmem.1 hp
    exact (auditElement_eq_nil_iff he).2 ⟨h.typed he, fun k hk => hsound.2 x e k he hk,
      fun d => hsound.1 x d (Option.isSome_of_eq_some he)⟩

/-- Nothing is found when nothing is wrong with any element and the rings hold as much as the
connectors require. -/
theorem isConsistent_audit_iff (h : t.Regular) : t.audit.isConsistent = true ↔
    t.Ringed ∧ t.Ended ∧ t.held.length = t.required.length := by
  have hfindings : t.audit.isConsistent = true ↔
      t.elements.flatMap (fun (a, e) => t.auditElement a e) = [] ∧
        t.audit.outgoing + t.audit.incoming = t.required.length := by
    rw [length_required, Audit.isConsistent, List.isEmpty_iff]
    show _ ++ (if _ then [] else _) = [] ↔ _
    rw [List.append_eq_nil_iff]
    refine and_congr_right fun _ => ?_
    split
    next heq => exact iff_of_true rfl heq
    next hne => exact iff_of_false (List.cons_ne_nil _ _) hne
  rw [hfindings, auditElements_eq_nil_iff h, and_assoc]
  refine and_congr_right fun hrings => and_congr_right fun _ => ?_
  rw [length_held h.addressable hrings]

end Arena

/-! ## The store -/

/-- Each ring of each live element is a closed list of connectors, linked forth and back, with the
head and the length that its owner notes: just the live connectors that play its part, each once.
The ends of live connectors are live. -/
structure Store.RingsSound (s : Store) : Prop where
  ring : ∀ x d e, s.arena.find? x = some e → ∃ cs, s.arena.IsRing x d cs ∧
    (∀ c, c ∈ cs ↔ ∃ e, s.arena.find? c = some e ∧ e.Plays x d) ∧
    ((e.ring d).first = .empty ↔ cs = []) ∧ (e.ring d).count.toNat = cs.length
  ends : ∀ c e k, s.arena.find? c = some e → e.connection = some k →
    s.isLive k.source = true ∧ s.isLive k.target = true

namespace Obtained

variable {s : Store}

/-- Whatever the store was made from, its audit finds nothing exactly when its rings are sound. -/
theorem audit_exact (h : Obtained s) : s.audit.isConsistent = true ↔ s.RingsSound := by
  have haddress := h.regular.addressable
  show s.arena.audit.isConsistent = true ↔ _
  rw [Arena.isConsistent_audit_iff h.regular]
  constructor
  · intro hsound
    obtain ⟨hrings, hends, hlength⟩ := hsound
    have hmem := (Arena.length_held_eq_iff haddress hrings hends).1 hlength
    refine ⟨fun x d e he => ?_, hends⟩
    obtain ⟨cs, hcs⟩ := hrings x d (Option.isSome_of_eq_some he)
    refine ⟨cs, hcs, fun c => ?_, ?_, hcs.count_eq he⟩
    · simp only [Element.plays_iff]
      exact ⟨hcs.incident, fun hc => hcs.ringAt_eq ▸ hmem x d c hc⟩
    · rw [← Address.isEmpty_iff, Arena.isEmpty_first hcs he]
  · intro hsound
    have hrings : s.arena.Ringed := by
      intro x d hx
      obtain ⟨e, he⟩ := Option.isSome_iff_exists.1 hx
      obtain ⟨cs, hcs, -⟩ := hsound.ring x d e he
      exact ⟨cs, hcs⟩
    have hends : s.arena.Ended := hsound.ends
    refine ⟨hrings, hends, (Arena.length_held_eq_iff haddress hrings hends).2 fun x d c hc => ?_⟩
    obtain ⟨e', he'⟩ := Option.isSome_iff_exists.1 (hends.isSome_of_incident hc)
    obtain ⟨cs, hcs, hmem, -⟩ := hsound.ring x d e' he'
    obtain ⟨e, he, hplace⟩ := hc
    rw [hcs.ringAt_eq, hmem]
    exact ⟨e, he, Element.plays_iff.2 hplace⟩

end Obtained

/-- The sample with one ring cut off from its owner. -/
def beheadedStore : Store :=
  { sampleStore with arena := sampleStore.arena.update ⟨1, 1⟩ (·.setRing {} .outgoing) }

def damagedDump : Bytes := Dump.encode (fun _ => 0) beheadedStore

/-- What is loaded of the damaged dump. -/
def damagedStore : Store :=
  match Dump.decode (fun _ => 0) .small damagedDump with
  | .ok (s, _) => s
  | .error _ => .ofSettings .small

theorem obtained_damagedStore : Obtained damagedStore := by
  unfold damagedStore
  split
  next s y h => exact .loaded _ _ _ h
  next => exact .fresh _

/-- The damaged dump is loaded. Each ring that is left is a ring, but together they hold two entries
less than the connectors require. -/
theorem Obtained.audit_exact_damagedStore :
    (Dump.decode (fun _ => 0) .small damagedDump).isOk = true ∧ Obtained damagedStore ∧
      damagedStore.audit.findings = [.unbalanced 6 8] ∧ ¬damagedStore.RingsSound := by
  have hfindings : damagedStore.audit.findings = [.unbalanced 6 8] := by decide +kernel
  refine ⟨by decide +kernel, obtained_damagedStore, hfindings, fun hsound => ?_⟩
  have hconsistent := obtained_damagedStore.audit_exact.2 hsound
  rw [Audit.isConsistent, hfindings] at hconsistent
  exact absurd hconsistent (by decide)

end SemanticNet
