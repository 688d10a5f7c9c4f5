import SemanticNet.Naming
import SemanticNet.Proofs.Becoming
import SemanticNet.Proofs.Holding
import SemanticNet.Proofs.Joining

/-!
# Namings

The five elements of a naming give its element a name (`Store.Names`). A session finds a naming when
it may read all five (`Store.Shows`): `Store.named?` is the first one that it may read, and a search
for the name comes to just that and counts what it looks at (`Store.AtRest.on_find?`). In the same
way the search for the name of an element comes to `Store.nameOf`.
-/

namespace SemanticNet

theorem Element.joins_of_bare {e e' : Element} {x y : Address} (h : e'.bare = e.bare) :
    e'.Joins x y ↔ e.Joins x y := by
  have hbare : ∀ e : Element, e.bare.Joins x y ↔ e.Joins x y := by
    intro e
    obtain ⟨type, access, flags, erasing, outgoing, incoming, connection⟩ := e
    cases connection <;> simp [Joins, bare, Connection.bare]
  rw [← hbare, h, hbare]

theorem Arena.readable?_of_bare {t t' : Arena} {levels : Access} {a : Address}
    (h : t'.bare? a = t.bare? a) : t'.readable? levels a = t.readable? levels a := by
  have hbare : ∀ t : Arena, t.readable? levels a
      = (t.bare? a).bind fun e => if levels.mayRead e.access then some e.type else none := by
    intro t
    rw [bare?, readable?]
    cases t.find? a <;> rfl
  rw [hbare, h, hbare]

namespace Naming

def toList (n : Naming) : List Address := [n.element, n.arc, n.link, n.mark, n.relation]

/-- The pattern for the names that a link holds. -/
def pattern (relation link : Address) : MarkedPattern where
  main := ⟨.any .unknown, .any .constCommonArc, .fixed link⟩
  mark := .any .constPermPosArc
  origin := .fixed relation

/-- The pattern for the names of an element. -/
def namesPattern (relation a : Address) : MarkedPattern where
  main := ⟨.fixed a, .any .constCommonArc, .any .constLink⟩
  mark := .any .constPermPosArc
  origin := .fixed relation

theorem toNat_of_isNameChar {c : Char} (h : isNameChar c = true) : c.toNat < 0x80 := by
  have hval : ∀ {n : UInt32}, n < 0x80 → c.val ≤ n → c.toNat < 0x80 :=
    fun hn hc => UInt32.lt_iff_toNat_lt.1 (UInt32.lt_of_le_of_lt hc hn)
  simp only [isNameChar, Bool.or_eq_true, beq_iff_eq] at h
  rcases h with (h | rfl) | rfl
  · -- an upper case letter, a lower case letter or a digit
    rcases Bool.or_eq_true_iff.1 h with h | h
    · rcases Bool.or_eq_true_iff.1 h with h | h
      · exact hval (by decide) (of_decide_eq_true h).2
      · exact hval (by decide) (of_decide_eq_true (Bool.and_eq_true_iff.1 h).2)
    · exact Nat.lt_of_le_of_lt (Char.isDigit_iff_toNat.1 h).2 (by decide)
  · decide
  · decide

/-- A name is read as it was written. -/
theorem decodeLossy_encode_of_isValid {name : String} (h : isValid name = true) :
    Utf8.decodeLossy (Utf8.encode name) = name := by
  rw [isValid, Bool.and_eq_true, List.all_eq_true] at h
  exact Utf8.decodeLossy_encode fun c hc => toNat_of_isNameChar (h.2 c hc)

end Naming

namespace Store

variable {s s' : Store} {made : List Address} {c : Session} {levels : Access}
  {relation link a : Address} {bytes : Bytes} {name : String} {n : Naming}

/-- The element at `c` joins `x` and `y`, and its type has the bits of the mask. -/
def Connects (s : Store) (mask : ElementType) (c x y : Address) : Prop :=
  ∃ e, s.arena.find? c = some e ∧ e.type.fits mask = true ∧ e.Joins x y

/-- The naming gives its element the name that these bytes are. -/
structure Names (s : Store) (bytes : Bytes) (n : Naming) : Prop where
  content : s.contents.get? n.link = some bytes
  arc : s.Connects .constCommonArc n.arc n.element n.link
  mark : s.Connects .constPermPosArc n.mark n.relation n.arc

/-- All five elements of the naming may be read with these levels. -/
def Shows (s : Store) (levels : Access) (n : Naming) : Prop :=
  ∀ a ∈ n.toList, (s.arena.readable? levels a).isSome

/-! ## Terms -/

theorem fits_fixed {t : Arena} {b : Address} :
    Term.Fits (.fixed a) t levels b ↔ b = a ∧ (t.readable? levels b).isSome := by
  rw [Option.isSome_iff_exists]
  simp only [Term.Fits, Term.accepts, beq_iff_eq]
  constructor
  · intro h
    obtain ⟨type, htype, heq⟩ := h
    exact ⟨heq.symm, type, htype⟩
  · intro h
    obtain ⟨heq, type, htype⟩ := h
    exact ⟨type, htype, heq.symm⟩

theorem fits_unknown {t : Arena} {b : Address} :
    Term.Fits (.any .unknown) t levels b ↔ (t.readable? levels b).isSome := by
  rw [Option.isSome_iff_exists]
  have hall : ∀ type : ElementType, type.fits .unknown = true := by
    intro type
    rw [ElementType.fits, ElementType.hasAll, ElementType.and_unknown]
    rfl
  simp only [Term.Fits, Term.accepts, hall, and_true]

theorem fits_any {t : Arena} {mask : ElementType} : Term.Fits (.any mask) t levels a ↔
    (∃ e, t.find? a = some e ∧ e.type.fits mask = true) ∧ (t.readable? levels a).isSome := by
  constructor
  · intro h
    obtain ⟨type, htype, hmask⟩ := h
    obtain ⟨e, he, -⟩ := Option.bind_eq_some_iff.1 htype
    obtain rfl := Arena.type_of_readable? he htype
    exact ⟨⟨e, he, hmask⟩, Option.isSome_of_eq_some htype⟩
  · intro h
    obtain ⟨⟨e, he, hmask⟩, hread⟩ := h
    obtain ⟨type, htype⟩ := Option.isSome_iff_exists.1 hread
    obtain rfl := Arena.type_of_readable? he htype
    exact ⟨e.type, htype, hmask⟩

/-- What a walk to `z` along connectors of one type comes to. -/
theorem AtRest.mem_walk_to (h : s.AtRest made) {source : Term} {mask : ElementType} {z : Address}
    {τ : Triple} : τ ∈ s.walk ⟨source, .any mask, .fixed z⟩ levels ↔
      s.Connects mask τ.connector τ.source τ.target ∧ τ.target = z ∧
      source.Fits s.arena levels τ.source ∧ (s.arena.readable? levels τ.connector).isSome ∧
      (s.arena.readable? levels τ.target).isSome := by
  have hanchor : (⟨source, .any mask, .fixed z⟩ : Pattern).anchor?.isSome := by
    cases source <;> rfl
  rw [(h.walksRing hanchor levels).mem_iff]
  constructor
  · intro hfits
    obtain ⟨e, he, hjoins⟩ := hfits.joins
    obtain ⟨type, htype, hmask⟩ := hfits.connector
    obtain ⟨hz, htarget⟩ := fits_fixed.1 hfits.target
    have heq : e.type = type := Arena.type_of_readable? he htype
    exact ⟨⟨e, he, heq ▸ hmask, hjoins⟩, hz, hfits.source, Option.isSome_of_eq_some htype, htarget⟩
  · intro hconnects
    obtain ⟨⟨e, he, hmask, hjoins⟩, hz, hsource, hconnector, htarget⟩ := hconnects
    obtain ⟨type, htype⟩ := Option.isSome_iff_exists.1 hconnector
    have heq : e.type = type := Arena.type_of_readable? he htype
    exact ⟨⟨e, he, hjoins⟩, hsource, ⟨type, htype, heq ▸ hmask⟩, fits_fixed.2 ⟨hz, htarget⟩⟩

/-! ## Elements of a naming -/

theorem Connects.of_bare {mask : ElementType} {b x y : Address} (h : s'.Connects mask b x y)
    (hb : s'.arena.bare? b = s.arena.bare? b) : s.Connects mask b x y := by
  obtain ⟨e', he', hfits, hjoins⟩ := h
  obtain ⟨e, he, hbare⟩ := Arena.find?_of_bare hb he'
  have htype : e'.type = e.type := congrArg (·.type) hbare
  exact ⟨e, he, htype ▸ hfits, (Element.joins_of_bare hbare).1 hjoins⟩

theorem Connects.touches {mask : ElementType} {b x y : Address} (h : s.Connects mask b x y) :
    s.arena.Touches b x ∧ s.arena.Touches b y := by
  obtain ⟨e, he, -, k, hk, hends⟩ := h
  rcases hends with hends | ⟨-, hends⟩
  · obtain ⟨rfl, rfl⟩ := Prod.mk.inj hends
    exact ⟨⟨e, k, he, hk, .inl rfl⟩, e, k, he, hk, .inr rfl⟩
  · obtain ⟨rfl, rfl⟩ := Prod.mk.inj hends
    exact ⟨⟨e, k, he, hk, .inr rfl⟩, e, k, he, hk, .inl rfl⟩

/-- The elements of a naming are live. -/
theorem AtRest.isSome_find?_of_names (h : s.AtRest made) (hn : s.Names bytes n) :
    ∀ a ∈ n.toList, (s.arena.find? a).isSome := by
  have hends := h.sound.wired.ends
  obtain ⟨harc, hlink⟩ := hn.arc.touches
  obtain ⟨hrelation, hmark⟩ := hn.mark.touches
  obtain ⟨e, he, -⟩ := hn.mark
  simp only [Naming.toList, List.forall_mem_cons]
  exact ⟨(hends _ _ harc).1, (hends _ _ hmark).1, (hends _ _ hlink).1,
    Option.isSome_of_eq_some he, (hends _ _ hrelation).1, List.forall_mem_nil _⟩

/-! ## Walks over namings -/

/-- What a walk to `z` comes to whose connectors are of one type and marked by ones of another. -/
theorem AtRest.mem_joined_to (h : s.AtRest made) {source origin : Term}
    {mask mask' : ElementType} {z : Address} {q : Quintuple} :
    q ∈ s.joined ⟨⟨source, .any mask, .fixed z⟩, .any mask', origin⟩ levels ↔
      q.main.target = z ∧ s.Connects mask q.main.connector q.main.source q.main.target ∧
      s.Connects mask' q.mark q.origin q.main.connector ∧
      source.Fits s.arena levels q.main.source ∧ origin.Fits s.arena levels q.origin ∧
      (s.arena.readable? levels q.main.connector).isSome ∧
      (s.arena.readable? levels q.main.target).isSome ∧
      (s.arena.readable? levels q.mark).isSome := by
  rw [mem_joined]
  show q.main ∈ s.walk ⟨source, .any mask, .fixed z⟩ levels ∧
    (∃ κ ∈ s.walk ⟨origin, .any mask', .fixed q.main.connector⟩ levels,
      q = .joining q.main κ) ↔ _
  rw [h.mem_walk_to]
  constructor
  · intro hq
    obtain ⟨⟨hconnects, hz, hsource, harc, htarget⟩, κ, hκ, hjoin⟩ := hq
    obtain ⟨hmarks, htarget', horigin, hmark, -⟩ := h.mem_walk_to.1 hκ
    have heq : q.mark = κ.connector := congrArg (·.mark) hjoin
    have heq' : q.origin = κ.source := congrArg (·.origin) hjoin
    rw [← heq] at hmark
    rw [← heq'] at horigin
    rw [← heq, ← heq', htarget'] at hmarks
    exact ⟨hz, hconnects, hmarks, hsource, horigin, harc, htarget, hmark⟩
  · intro hq
    obtain ⟨hz, hconnects, hmarks, hsource, horigin, harc, htarget, hmark⟩ := hq
    exact ⟨⟨hconnects, hz, hsource, harc, htarget⟩, ⟨q.origin, q.mark, q.main.connector⟩,
      h.mem_walk_to.2 ⟨hmarks, rfl, horigin, hmark, harc⟩, rfl⟩

/-- A walk over the names of a link yields the namings that may be read. -/
theorem AtRest.mem_joined_pattern (h : s.AtRest made) {q : Quintuple} :
    q ∈ s.joined (Naming.pattern relation link) levels ↔
      q.main.target = link ∧ q.origin = relation ∧
      s.Connects .constCommonArc q.main.connector q.main.source q.main.target ∧
      s.Connects .constPermPosArc q.mark q.origin q.main.connector ∧
      s.Shows levels (.ofQuintuple q) := by
  rw [Naming.pattern, h.mem_joined_to, fits_unknown, fits_fixed]
  simp only [Shows, Naming.toList, List.forall_mem_cons, Naming.ofQuintuple]
  constructor
  · intro hq
    obtain ⟨hlink, hconnects, hmarks, hsource, ⟨hrelation, horigin⟩, harc, htarget, hmark⟩ := hq
    exact ⟨hlink, hrelation, hconnects, hmarks, hsource, harc, htarget, hmark, horigin,
      List.forall_mem_nil _⟩
  · intro hq
    obtain ⟨hlink, hrelation, hconnects, hmarks, hsource, harc, htarget, hmark, horigin, -⟩ := hq
    exact ⟨hlink, hconnects, hmarks, hsource, ⟨hrelation, horigin⟩, harc, htarget, hmark⟩

/-! ## Searches -/

/-- The first naming that the session may read, among those whose links have the bytes. -/
def named? (s : Store) (c : Session) (relation : Address) (bytes : Bytes) : Option Naming :=
  (c.find s bytes).findSome? fun link =>
    (s.joined (Naming.pattern relation link) c.levels).head?.map .ofQuintuple

/-- What is found is a naming that may be read. -/
theorem AtRest.names_of_named? (h : s.AtRest made) (hi : s.contents.Indexed)
    (hn : s.named? c relation bytes = some n) :
    s.Names bytes n ∧ n.relation = relation ∧ s.Shows c.levels n := by
  obtain ⟨link, hlink, hhead⟩ := List.exists_of_findSome?_eq_some hn
  obtain ⟨q, hq, rfl⟩ := Option.map_eq_some_iff.1 hhead
  obtain ⟨htarget, hrelation, harc, hmark, hshows⟩ :=
    h.mem_joined_pattern.1 (List.mem_of_mem_head? hq)
  have hcontent := hi.mem_find.1 (List.mem_filter.1 hlink).1
  rw [← htarget] at hcontent
  exact ⟨⟨hcontent, harc, hmark⟩, hrelation, hshows⟩

theorem readable?_eq_mayRead (c : Session) (s : Store) (a : Address) :
    (s.arena.readable? c.levels a).isSome = c.mayRead s a := by
  rw [Arena.readable?, Session.mayRead]
  cases s.arena.find? a with
  | none => rfl
  | some e => cases hl : c.levels.mayRead e.access <;> simp [hl]

theorem isSome_of_mayRead (h : c.mayRead s a = true) : (s.arena.find? a).isSome := by
  rw [Session.mayRead] at h
  cases he : s.arena.find? a with
  | some e => rfl
  | none =>
    rw [he] at h
    cases h

/-- A session may read what has its own levels. -/
theorem mayRead_of_bare {e : Element} (hb : s.arena.bare? a = some e.bare)
    (haccess : e.access = c.levels) : c.mayRead s a = true := by
  obtain ⟨e', he', hbare⟩ := Arena.bare?_eq_some.1 hb
  have haccess' : e'.access = e.access := congrArg (·.access) hbare
  rw [Session.mayRead, he', Option.any_some, haccess', haccess]
  exact decide_eq_true (UInt8.le_refl _)

/-- A naming that may be read is found, or another one of the same name. -/
theorem AtRest.isSome_named? (h : s.AtRest made) (hi : s.contents.Indexed)
    (hn : s.Names bytes n) (hshows : s.Shows c.levels n) :
    (s.named? c n.relation bytes).isSome := by
  have hlink : n.link ∈ c.find s bytes := by
    refine List.mem_filter.2 ⟨hi.mem_find.2 hn.content, ?_⟩
    rw [← readable?_eq_mayRead]
    exact hshows _ (by simp [Naming.toList])
  have hjoined : ⟨⟨n.element, n.arc, n.link⟩, n.mark, n.relation⟩
      ∈ s.joined (Naming.pattern n.relation n.link) c.levels :=
    h.mem_joined_pattern.2 ⟨rfl, rfl, hn.arc, hn.mark, hshows⟩
  by_contra hnone
  rw [Option.not_isSome_iff_eq_none, named?, List.findSome?_eq_none_iff] at hnone
  have hempty := hnone n.link hlink
  rw [Option.map_eq_none_iff, List.head?_eq_none_iff] at hempty
  rw [hempty] at hjoined
  cases hjoined

/-! ### Counting -/

theorem noteScans_zero (s : Store) : s.noteScans {} = s := by
  obtain ⟨arena, contents, census, metrics⟩ := s
  cases metrics <;> rfl

theorem noteScans_noteScans (s : Store) (m k : Scans) :
    (s.noteScans m).noteScans k = s.noteScans (m + k) := by
  obtain ⟨arena, contents, census, metrics⟩ := s
  cases metrics with
  | none => rfl
  | some metrics =>
    have hout := Nat.add_assoc metrics.ringScansOut m.outgoing k.outgoing
    have hin := Nat.add_assoc metrics.ringScansIn m.incoming k.incoming
    simp only [noteScans, count, Metrics.count, Option.map_some, hout, hin]
    rfl

theorem agrees_noteScans (s : Store) (m : Scans) : s.Agrees (s.noteScans m) := ⟨rfl, rfl, rfl⟩

theorem walk_noteScans {p : Pattern} (m : Scans) :
    (s.noteScans m).walk p levels = s.walk p levels := by
  rw [walk, walk, found, found, triples, Step.on_bind, Step.on_bind, Step.on_lift, Step.on_lift]
  cases Triples.open? p levels <;> rfl

theorem joined_noteScans {p : MarkedPattern} (m : Scans) :
    (s.noteScans m).joined p levels = s.joined p levels := by
  simp only [joined, walk_noteScans]

/-- Counting does not change what is found. -/
theorem named?_noteScans (m : Scans) :
    (s.noteScans m).named? c relation bytes = s.named? c relation bytes := by
  have hfind : c.find (s.noteScans m) bytes = c.find s bytes := rfl
  simp only [named?, joined_noteScans, hfind]

theorem walksRings_pattern (hr : relation ≠ .empty) (link : Address) :
    WalksRings (Naming.pattern relation link) where
  main := rfl
  mark := rfl
  origin := by simpa [Naming.pattern, Term.fixed?] using hr

theorem walksRings_namesPattern (hr : relation ≠ .empty) (a : Address) :
    WalksRings (Naming.namesPattern relation a) where
  main := rfl
  mark := rfl
  origin := by simpa [Naming.namesPattern, Term.fixed?] using hr

/-- The searches through some links come to the first naming, and count what they look at. -/
theorem AtRest.on_findAmong? (h : s.AtRest made) (hr : relation ≠ .empty) (links : List Address) :
    ∃ m, (Naming.findAmong? c relation links).on s
      = (.ok (links.findSome? fun link =>
          (s.joined (Naming.pattern relation link) c.levels).head?.map .ofQuintuple),
        s.noteScans m) := by
  induction links generalizing s with
  | nil => exact ⟨{}, by rw [noteScans_zero]; rfl⟩
  | cons link links ih =>
    obtain ⟨m, hrun⟩ := h.on_quintuples ((walksRings_pattern hr link).open? c.levels) (some 1)
    have hq : (c.quintuples (Naming.pattern relation link) (some 1)).on s = _ := hrun
    rw [Naming.findAmong?, Step.on_bind]
    cases hfound : s.joined (Naming.pattern relation link) c.levels with
    | cons q qs =>
      refine ⟨m, ?_⟩
      rw [hfound] at hq
      simp only [Naming.pattern] at hq
      rw [hq, List.findSome?_cons, hfound]
      rfl
    | nil =>
      obtain ⟨k, hrest⟩ := ih (h.agrees (s.agrees_noteScans m))
      simp only [joined_noteScans] at hrest
      refine ⟨m + k, ?_⟩
      rw [hfound] at hq
      simp only [Naming.pattern] at hq
      rw [hq, List.findSome?_cons, hfound, ← noteScans_noteScans]
      exact hrest

/-- A search for a name comes to what the session may read, and counts what it looks at. -/
theorem AtRest.on_find? (h : s.AtRest made) (hr : relation ≠ .empty)
    (hname : Naming.isValid name = true) :
    ∃ m, (Naming.find? c relation name).on s
      = (.ok (s.named? c relation (Utf8.encode name)), s.noteScans m) := by
  obtain ⟨m, hrun⟩ := h.on_findAmong? (c := c) hr (c.find s (Utf8.encode name))
  refine ⟨m, ?_⟩
  rw [Naming.find?, Step.on_bind, Step.on_ask, Naming.check, if_pos hname]
  exact hrun

/-- No walk is opened over marks of the empty address. -/
theorem open?_of_empty (p : MarkedPattern) (levels : Access) (hp : p.origin = .fixed .empty) :
    ∃ f, Quintuples.open? p levels = .error f := by
  rw [Quintuples.open?]
  cases Triples.open? p.main levels with
  | error f => exact ⟨f, rfl⟩
  | ok w =>
    have hempty : (p.mark.fixed? = some .empty || p.origin.fixed? = some .empty) = true := by
      simp [hp, Term.fixed?]
    refine ⟨.invalidParams .emptyAttribute, ?_⟩
    simp only [hempty, if_true, bind, Except.bind, throw, throwThe, MonadExceptOf.throw]

/-- A search for a valid name comes to that or, when no relation is given, may be refused. -/
theorem AtRest.on_find?_cases (h : s.AtRest made) (c : Session) (relation : Address)
    (hname : Naming.isValid name = true) :
    (∃ m, (Naming.find? c relation name).on s
      = (.ok (s.named? c relation (Utf8.encode name)), s.noteScans m)) ∨
    ∃ f, (Naming.find? c relation name).on s = (.error f, s) := by
  by_cases hr : relation = .empty
  · subst hr
    rw [Naming.find?, Step.on_bind, Step.on_ask, Naming.check, if_pos hname, named?]
    show (∃ m, (Naming.findAmong? c .empty (c.find s (Utf8.encode name))).on s = _) ∨
      ∃ f, (Naming.findAmong? c .empty (c.find s (Utf8.encode name))).on s = _
    cases c.find s (Utf8.encode name) with
    | nil => exact .inl ⟨{}, by rw [noteScans_zero]; rfl⟩
    | cons link links =>
      right
      obtain ⟨f, hopen⟩ := open?_of_empty (Naming.pattern .empty link) c.levels rfl
      refine ⟨f, ?_⟩
      rw [Naming.pattern] at hopen
      rw [Naming.findAmong?, Step.on_bind, Session.quintuples, quintuples, Step.on_bind,
        Step.on_lift, hopen]
  · exact .inl (h.on_find? hr hname)

theorem on_find?_invalid (hname : Naming.isValid name = false) :
    (Naming.find? c relation name).on s = (.error (.invalidIdentifier name), s) := by
  rw [Naming.find?, Step.on_bind, Step.on_ask, Naming.check, hname]
  rfl

/-- The name of an element, as a session finds it. -/
def nameOf (s : Store) (c : Session) (relation a : Address) : Except Failure (Option String) :=
  match s.joined (Naming.namesPattern relation a) c.levels with
  | [] => .ok none
  | q :: _ => c.textOf s q.main.target

/-- A search for the name of an element comes to what the session finds, and counts what it looks
at. -/
theorem AtRest.on_nameOf? (h : s.AtRest made) (hr : relation ≠ .empty) (a : Address) :
    ∃ k, (Naming.nameOf? c relation a).on s = (s.nameOf c relation a, s.noteScans k) := by
  obtain ⟨k, hrun⟩ := h.on_quintuples ((walksRings_namesPattern hr a).open? c.levels) (some 1)
  have hwalk : (c.quintuples (Naming.namesPattern relation a) (some 1)).on s = _ := hrun
  have hask : Naming.nameOf? c relation a = (do
      match ← c.quintuples (Naming.namesPattern relation a) (some 1) with
      | [] => return none
      | q :: _ => Step.ask (c.textOf · q.main.target)) := rfl
  refine ⟨k, ?_⟩
  rw [hask, Step.on_bind, hwalk, nameOf]
  cases s.joined (Naming.namesPattern relation a) c.levels with
  | nil => rfl
  | cons q qs => rfl

end Store

end SemanticNet
