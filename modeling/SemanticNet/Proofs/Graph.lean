import SemanticNet.Proofs.Rings
import SemanticNet.Store.Create
import SemanticNet.Store.Erase

/-!
# The graph

An arena is wired when each ring of each live element lists, newest first, exactly the connectors
that have to sit there (`Arena.Wired`). It stays wired when an element comes in front of the rings
of its places (`Wired.grown`), and when elements go together with all connectors on them
(`Wired.without`).
-/

namespace SemanticNet

/-- What rings see of an element: its rings and links, and whether it runs both ways. -/
def Element.threads (e : Element) : Element :=
  { type := if e.type.isCommonEdge then .commonEdge else .unknown
    access := .lowest
    outgoing := e.outgoing
    incoming := e.incoming
    connection := e.connection }

namespace Element

variable {e : Element} {x : Address} {d : Direction}

theorem isCommonEdge_threads : e.threads.type.isCommonEdge = e.type.isCommonEdge := by
  show (if e.type.isCommonEdge then ElementType.commonEdge else .unknown).isCommonEdge = _
  cases e.type.isCommonEdge <;> rfl

theorem ring_threads : e.threads.ring d = e.ring d := by
  cases d <;> rfl

theorem role?_threads : e.threads.role? x d = e.role? x d := by
  have hcon : e.threads.connection = e.connection := rfl
  cases d <;> simp only [role?, hcon, isCommonEdge_threads]

theorem link?_threads : e.threads.link? x d = e.link? x d := by
  rw [link?_eq_bind, link?_eq_bind, role?_threads]
  rfl

theorem places_threads : e.threads.places = e.places := by
  have hcon : e.threads.connection = e.connection := rfl
  rw [places, places, isCommonEdge_threads, hcon]

/-- The connector `e` begins at `x` (outgoing) or ends at `x` (incoming). A common edge between two
distinct elements does either the other way around as well. -/
def Plays (e : Element) (x : Address) : Direction → Prop
  | .outgoing => ∃ k, e.connection = some k ∧
      (k.source = x ∨ e.type.isCommonEdge = true ∧ k.source ≠ k.target ∧ k.target = x)
  | .incoming => ∃ k, e.connection = some k ∧
      (k.target = x ∨ e.type.isCommonEdge = true ∧ k.source ≠ k.target ∧ k.source = x)

/-- The places of a connector are the parts that it plays. -/
theorem plays_iff : e.Plays x d ↔ (x, d) ∈ e.places := by
  cases hk : e.connection with
  | none => cases d <;> simp [Plays, places, hk]
  | some k => cases d <;> simp only [Plays, places, hk] <;> grind

/-- The owners of the rings that a connector sits in are its ends. -/
theorem mem_places_iff {k : Connection} (hk : e.connection = some k) :
    (∃ d, (x, d) ∈ e.places) ↔ k.source = x ∨ k.target = x := by
  constructor
  · intro hex
    obtain ⟨d, hd⟩ := hex
    simp only [places, hk] at hd
    grind
  · intro hend
    rcases hend with rfl | rfl
    · exact ⟨.outgoing, by simp [places, hk]⟩
    · exact ⟨.incoming, by simp [places, hk]⟩

end Element

namespace Arena

variable {t t' t'' : Arena} {a b c x y : Address} {d : Direction} {as bs cs made : List Address}
  {e : Element} {ps : List (Address × Direction)}

/-- The live element `c` is a connector that has to sit in a ring of `x`. -/
def Incident (t : Arena) (x : Address) (d : Direction) (c : Address) : Prop :=
  ∃ e, t.find? c = some e ∧ (x, d) ∈ e.places

/-- The live element `c` is a connector, and `x` is one of its ends. -/
def Touches (t : Arena) (c x : Address) : Prop :=
  ∃ e k, t.find? c = some e ∧ e.connection = some k ∧ (k.source = x ∨ k.target = x)

/-- In a record of creations, newest first, `a` comes before `b`. -/
def Newer (made : List Address) (a b : Address) : Prop := made.idxOf a < made.idxOf b

/-- Every ring lists, newest first, the connectors that have to sit in it; connectors have live
ends, which were made before them. -/
structure Wired (made : List Address) (t : Arena) : Prop where
  ring : ∀ x d, (t.find? x).isSome → ∃ cs, t.IsRing x d cs ∧ ∀ c, c ∈ cs ↔ t.Incident x d c
  newest : ∀ x d cs, t.IsRing x d cs → cs.Pairwise (Newer made)
  ends : ∀ c x, t.Touches c x → (t.find? x).isSome ∧ Newer made c x
  recorded : ∀ x, (t.find? x).isSome → x ∈ made

theorem touches_iff : t.Touches c x ↔ ∃ d, t.Incident x d c := by
  constructor
  · intro htouch
    obtain ⟨e, k, he, hk, hx⟩ := htouch
    obtain ⟨d, hd⟩ := (Element.mem_places_iff hk).2 hx
    exact ⟨d, e, he, hd⟩
  · intro hinc
    obtain ⟨d, e, he, hd⟩ := hinc
    cases hk : e.connection with
    | none => simp [Element.places, hk] at hd
    | some k => exact ⟨e, k, he, hk, (Element.mem_places_iff hk).1 ⟨d, hd⟩⟩

/-! ## Rings seen from outside -/

theorem IsRing.isSome_owner (h : t.IsRing x d cs) : (t.find? x).isSome := by
  obtain ⟨r, hr, -⟩ := h.head
  obtain ⟨e, he, -⟩ := Option.map_eq_some_iff.1 hr
  exact Option.isSome_of_eq_some he

/-- A ring is a matter of the threads of its owner and of its members. -/
theorem IsRing.of_threads (h : t.IsRing x d cs)
    (hx : (t'.find? x).map Element.threads = (t.find? x).map Element.threads)
    (hcs : ∀ c ∈ cs, (t'.find? c).map Element.threads = (t.find? c).map Element.threads) :
    t'.IsRing x d cs := by
  -- heads and links can be read off the threads
  have hring : ∀ s : Arena, s.ring? x d = ((s.find? x).map Element.threads).map (·.ring d) := by
    intro s
    rw [ring?, Option.map_map]
    exact congrArg (Option.map · (s.find? x)) (funext fun e => Element.ring_threads.symm)
  have hlinks : ∀ (s : Arena) c,
      s.linksOf x d c = ((s.find? c).map Element.threads).bind (·.link? x d) := by
    intro s c
    rw [linksOf]
    cases s.find? c with
    | none => rfl
    | some e => exact Element.link?_threads.symm
  refine ⟨h.nodup, ?_, ?_⟩
  · rw [hring, hx, ← hring]
    exact h.head
  · exact Links.circle_congr h.closed fun c hc => by rw [hlinks, hlinks, hcs c hc]

theorem incident_congr
    (h : (t'.find? c).map Element.places = (t.find? c).map Element.places) :
    t'.Incident x d c ↔ t.Incident x d c := by
  have hmap : ∀ s : Arena, s.Incident x d c ↔
      ∃ ps, (s.find? c).map Element.places = some ps ∧ (x, d) ∈ ps := by
    intro s
    simp [Incident, Option.map_eq_some_iff]
  rw [hmap, hmap, h]

theorem map_places_of_bare (h : t'.bare? c = t.bare? c) :
    (t'.find? c).map Element.places = (t.find? c).map Element.places := by
  have hmap : ∀ s : Arena, (s.find? c).map Element.places = (s.bare? c).map Element.places := by
    intro s
    rw [bare?, Option.map_map]
    exact congrArg (Option.map · (s.find? c)) (funext fun e => Element.places_bare.symm)
  rw [hmap, hmap, h]

theorem map_places_of_threads
    (h : (t'.find? c).map Element.threads = (t.find? c).map Element.threads) :
    (t'.find? c).map Element.places = (t.find? c).map Element.places := by
  have hmap : ∀ s : Arena, (s.find? c).map Element.places
      = ((s.find? c).map Element.threads).map Element.places := by
    intro s
    rw [Option.map_map]
    exact congrArg (Option.map · (s.find? c)) (funext fun e => Element.places_threads.symm)
  rw [hmap, hmap, h]

theorem isSome_of_threads
    (h : (t'.find? c).map Element.threads = (t.find? c).map Element.threads) :
    (t'.find? c).isSome = (t.find? c).isSome := by
  have := congrArg Option.isSome h
  rwa [Option.isSome_map, Option.isSome_map] at this

theorem isSome_of_bare (h : t'.bare? c = t.bare? c) : (t'.find? c).isSome = (t.find? c).isSome := by
  rw [← isSome_bare?, h, isSome_bare?]

theorem touches_of_places
    (h : (t'.find? c).map Element.places = (t.find? c).map Element.places) :
    t'.Touches c x ↔ t.Touches c x := by
  simp only [touches_iff, incident_congr h]

/-- An arena stays wired when no thread is touched. -/
theorem Wired.of_threads (h : t.Wired made)
    (ht : ∀ a, (t'.find? a).map Element.threads = (t.find? a).map Element.threads) :
    t'.Wired made where
  ring x d hx := by
    obtain ⟨cs, hcs, hmem⟩ := h.ring x d (isSome_of_threads (ht x) ▸ hx)
    refine ⟨cs, hcs.of_threads (ht x) fun c _ => ht c, fun c => ?_⟩
    rw [hmem, incident_congr (map_places_of_threads (ht c))]
  newest x d cs hcs := h.newest x d cs (hcs.of_threads (ht x).symm fun c _ => (ht c).symm)
  ends c x hx := by
    rw [isSome_of_threads (ht x)]
    exact h.ends c x ((touches_of_places (map_places_of_threads (ht c))).1 hx)
  recorded x hx := h.recorded x (isSome_of_threads (ht x) ▸ hx)

end Arena

end SemanticNet
