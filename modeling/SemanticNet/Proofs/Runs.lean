import SemanticNet.Proofs.Erasure
import SemanticNet.Proofs.Loading

/-!
# Runs

The operations on a store as data (`Action`), and the stores that they reach from an empty one when
they follow each other in any order, with the dump written and loaded again in between (`Reached`).
Every store that is reached is at rest (`Reached.atRest`). So its rings list the connectors that
belong there, an erasure takes away just what hangs on an element, and a dump is read back.
-/

namespace SemanticNet

/-- An operation on a store. A commit applies what the transaction has staged. -/
inductive Action where
  | addNode (type : ElementType) (access : Access)
  | addLink (type : ElementType) (access : Access)
  | connect (type : ElementType) (source target : Address) (access : Access)
  | erase (a : Address)
  | narrow (a : Address) (type : ElementType)
  | setAccess (a : Address) (access : Access)
  | setContent (a : Address) (bytes : Bytes)
  | commit (x : Transaction)

/-- The answer to an operation that succeeds. -/
inductive Answer where
  | made (a : Address)
  | erased (as : List Address)
  | done
deriving DecidableEq

/-- The element that was made, if one was. -/
def madeBy : Except Failure Answer → List Address
  | .ok (.made a) => [a]
  | _ => []

namespace Action

def run : Action → Step Store Answer
  | addNode type access => .made <$> Store.addNode type access
  | addLink type access => .made <$> Store.addLink type access
  | connect type source target access => .made <$> Store.connect type source target access
  | erase a => .erased <$> Store.erase a
  | narrow a type => (fun _ => .done) <$> Store.narrow a type
  | setAccess a access => (fun _ => .done) <$> Store.setAccess a access
  | setContent a bytes => (fun _ => .done) <$> Store.setContent a bytes
  | commit x => (fun _ => .done) <$> Step.within (fun s => (x, s)) (fun w _ => w.2) default
      Transaction.commit

/-- The answers to operations that follow each other, and the store that they leave. -/
def runAll : List Action → Store → List (Except Failure Answer) × Store
  | [], s => ([], s)
  | k :: ks, s =>
    let (r, s) := k.run.on s
    let (rs, s) := runAll ks s
    (r :: rs, s)

/-- The levels that an operation is called with are in use: they run from 0 to 15. -/
def Admissible : Action → Prop
  | addNode _ access | addLink _ access | connect _ _ _ access | setAccess _ access => access.InUse
  | commit x => x.staged.InUse
  | erase _ | narrow _ _ | setContent _ _ => True

/-- Whether an operation makes or erases elements. -/
def IsStructural : Action → Prop
  | addNode _ _ | addLink _ _ | connect _ _ _ _ | erase _ => True
  | narrow _ _ | setAccess _ _ | setContent _ _ | commit _ => False

end Action

/-- The stores that are reached from a new one, with the record of the elements that were made, the
last one first. An operation may fail; metrics may be counted at any time; and the dump of a store
may be loaded in its place. The settings of a new or loaded store are among the allowed ones. -/
inductive Reached (allowed : Settings → Prop) : List Address → Store → Prop where
  | fresh {c : Settings} (hc : allowed c) : Reached allowed [] (.ofSettings c)
  | act {made : List Address} {s : Store} (k : Action) (hk : k.Admissible)
      (h : Reached allowed made s) :
      Reached allowed (madeBy (k.run.on s).1 ++ made) (k.run.on s).2
  | counted {made : List Address} {s : Store} (m : Option Metrics) (h : Reached allowed made s) :
      Reached allowed made { s with metrics := m }
  | loaded {made : List Address} {s s' : Store} {c : Settings} {y : Dump.Summary}
      (check : Bytes → UInt32) (hc : allowed c) (h : Reached allowed made s)
      (hload : Dump.decode check c (Dump.encode check s) = .ok (s', y)) : Reached allowed made s'

namespace Store.AtRest

variable {s : Store} {made : List Address} {x : Step Store Address}

/-- A step that makes an element leaves the store at rest, with the element in the record. -/
theorem creates (h : s.AtRest made) (hx : Creates x s) :
    ((Answer.made <$> x).on s).2.AtRest (madeBy ((Answer.made <$> x).on s).1 ++ made) := by
  rcases hx with ⟨c, e, s', hrun, hcreated⟩ | ⟨f, s', hrun, hagrees⟩
  · rw [Step.on_map, hrun]
    exact h.created hcreated
  · rw [Step.on_map, hrun]
    exact h.agrees hagrees

end Store.AtRest

namespace Action

variable {s : Store} {made : List Address}

/-- Every operation leaves a store at rest. -/
theorem atRest_run (k : Action) (hk : k.Admissible) (h : s.AtRest made) :
    (k.run.on s).2.AtRest (madeBy (k.run.on s).1 ++ made) := by
  have hdone : ∀ {x : Step Store Unit}, (x.on s).2.AtRest made →
      (((fun _ => Answer.done) <$> x).on s).2.AtRest
        (madeBy (((fun _ => Answer.done) <$> x).on s).1 ++ made) := by
    intro x hx
    rw [Step.on_map]
    cases hrun : (x.on s).1 <;> exact hx
  cases k with
  | addNode type access => exact h.creates (h.sound.creates_addNode type hk)
  | addLink type access => exact h.creates (h.sound.creates_addLink type hk)
  | connect type source target access =>
    exact h.creates (h.sound.creates_connect type source target hk)
  | erase a =>
    rw [run, Step.on_map]
    cases ha : s.arena.find? a with
    | none =>
      obtain ⟨f, hrun⟩ := Store.erase_dead ha
      rw [hrun]
      exact h
    | some e =>
      obtain ⟨order, s', hrun, hrest, -⟩ := h.erase (Option.isSome_of_eq_some ha)
      rw [hrun]
      exact hrest
  | narrow a type => exact hdone (h.narrow a type)
  | setAccess a access => exact hdone (h.setAccess hk)
  | setContent a bytes => exact hdone (h.setContent a bytes)
  | commit x => exact hdone (h.commit hk)

end Action

namespace Reached

variable {allowed : Settings → Prop} {made : List Address} {s s' : Store} {x : Address}

/-- Every store that is reached is at rest. -/
theorem atRest (h : Reached allowed made s) : s.AtRest made := by
  induction h with
  | fresh hc => exact Store.atRest_ofSettings _
  | act k hk _ ih => exact k.atRest_run hk ih
  | counted m _ ih => exact ih.agrees ⟨rfl, rfl, rfl⟩
  | loaded check hc _ hload ih => exact Dump.atRest_of_decode ih hload

/-- What operations that follow each other reach. -/
theorem runAll (h : Reached allowed made s) {ks : List Action} (hks : ∀ k ∈ ks, k.Admissible) :
    Reached allowed ((Action.runAll ks s).1.reverse.flatMap madeBy ++ made)
      (Action.runAll ks s).2 := by
  induction ks generalizing made s with
  | nil => exact h
  | cons k ks ih =>
    have hk := h.act k (hks k List.mem_cons_self)
    have hall := ih hk fun l hl => hks l (List.mem_cons_of_mem k hl)
    simpa [Action.runAll] using hall

end Reached

/-! ## Rings -/

/-- Each ring of each live element lists, newest first and each once, the live connectors that play
its part; following the links forth or back goes round that list, and the owner knows its first
member and its length. The ends of live connectors are live. -/
structure Store.RingsListed (made : List Address) (s : Store) : Prop where
  ring : ∀ x d e, s.arena.find? x = some e → ∃ cs, s.arena.IsRing x d cs ∧
    s.arena.members x d = .ok cs ∧ (∀ c, c ∈ cs ↔ ∃ e, s.arena.find? c = some e ∧ e.Plays x d) ∧
    cs.Pairwise (Arena.Newer made) ∧
    ((e.ring d).first = .empty ↔ ∀ c e, s.arena.find? c = some e → ¬e.Plays x d) ∧
    (e.ring d).count.toNat = cs.length
  ends : ∀ c e k, s.arena.find? c = some e → e.connection = some k →
    s.isLive k.source = true ∧ s.isLive k.target = true

namespace Reached

variable {allowed : Settings → Prop} {made : List Address} {s s' : Store} {x : Address}

/-- Whatever was reached, its rings are in order. -/
theorem rings_listed (h : Reached allowed made s) : s.RingsListed made := by
  have hwired := h.atRest.sound.wired
  refine ⟨fun x d e he => ?_, fun c e k he hk => ?_⟩
  · obtain ⟨cs, hcs, hmem⟩ := hwired.ring x d (Option.isSome_of_eq_some he)
    have hplays : ∀ c, c ∈ cs ↔ ∃ e, s.arena.find? c = some e ∧ e.Plays x d := by
      intro c
      rw [hmem, Arena.Incident]
      simp only [Element.plays_iff]
    obtain ⟨r, hr, -, hcount⟩ := hcs.head
    rw [Arena.ring?, he] at hr
    obtain rfl := Option.some.inj hr
    refine ⟨cs, hcs, hcs.members_eq, hplays, hwired.newest x d cs hcs, ?_, hcount⟩
    rw [← Address.isEmpty_iff, Arena.isEmpty_first hcs he, List.eq_nil_iff_forall_not_mem]
    simp only [hplays, not_exists, not_and]
  · exact ⟨(hwired.ends c k.source ⟨e, k, he, hk, .inl rfl⟩).1,
      (hwired.ends c k.target ⟨e, k, he, hk, .inr rfl⟩).1⟩

end Reached

/-- Two nodes, a link, an edge between the nodes, an arc from a node to itself and an arc from the
link to the edge. -/
def sampleActions : List Action :=
  [.addNode .const .lowest, .addNode .const .highest, .addLink .const .lowest,
    .setContent ⟨1, 3⟩ [1, 2], .connect .commonEdge ⟨1, 1⟩ ⟨1, 2⟩ .lowest,
    .connect .commonArc ⟨1, 1⟩ ⟨1, 1⟩ .lowest, .connect .membershipArc ⟨1, 3⟩ ⟨1, 4⟩ .lowest]

def sampleStore : Store := (Action.runAll sampleActions (.ofSettings .small)).2

/-- The elements of the sample, the last one first. -/
def sampleMade : List Address := [⟨1, 6⟩, ⟨1, 5⟩, ⟨1, 4⟩, ⟨1, 3⟩, ⟨1, 2⟩, ⟨1, 1⟩]

theorem reached_sampleStore : Reached (· = .small) sampleMade sampleStore := by
  have hadmissible : ∀ k ∈ sampleActions, k.Admissible := by
    simp [sampleActions, Action.Admissible, Access.inUse_lowest, Access.inUse_highest]
  have hmade : (Action.runAll sampleActions (.ofSettings .small)).1.reverse.flatMap madeBy ++ []
      = sampleMade := by
    decide +kernel
  have h := (@Reached.fresh (· = .small) _ rfl).runAll hadmissible
  rwa [hmade] at h

theorem rings_listed_sampleStore : sampleStore.RingsListed sampleMade :=
  reached_sampleStore.rings_listed

/-! ## Erasures -/

/-- Erasing `x` from `s` takes away `order`, which is what hangs on `x`, itself last. All else stays
as it is, but for the rings, which lose the members that are gone. -/
structure Store.Erases (s s' : Store) (x : Address) (order : List Address) : Prop where
  nodup : order.Nodup
  last : order.getLast? = some x
  mem_iff : ∀ a, a ∈ order ↔ s.arena.Hanging x a
  live : ∀ a, s'.isLive a = true ↔ s.isLive a = true ∧ a ∉ order
  type : ∀ a, a ∉ order → s'.typeOf a = s.typeOf a
  access : ∀ a, a ∉ order → s'.accessOf a = s.accessOf a
  ends : ∀ a, a ∉ order → s'.endsOf a = s.endsOf a
  content : ∀ a, s'.contents.get? a = if a ∈ order then none else s.contents.get? a
  ring : ∀ y d, s'.isLive y = true → ∃ cs, s.arena.IsRing y d cs ∧
    s'.arena.IsRing y d (cs.filter (· ∉ order))
  calm : s'.Calm

/-- Questions that an element answers apart from its rings. -/
theorem Store.answers_of_bare {s s' : Store} {a : Address}
    (h : s'.arena.bare? a = s.arena.bare? a) :
    s'.typeOf a = s.typeOf a ∧ s'.accessOf a = s.accessOf a ∧ s'.endsOf a = s.endsOf a := by
  have hends : ∀ e : Element, e.ends? = e.bare.ends? := fun e => Element.ends?_bare.symm
  cases he : s.arena.find? a with
  | none =>
    have he' : s'.arena.find? a = none := by
      rw [← Option.not_isSome_iff_eq_none, Arena.isSome_of_bare h, he]
      simp
    simp [typeOf, accessOf, endsOf, Arena.fetch, he, he']
  | some e =>
    obtain ⟨e', he'⟩ : ∃ e', s'.arena.find? a = some e' :=
      Option.isSome_iff_exists.1 (by rw [Arena.isSome_of_bare h, he]; rfl)
    have hbare : e'.bare = e.bare := by
      rw [Arena.bare?, Arena.bare?, he, he'] at h
      exact Option.some.inj h
    have htype : e'.type = e.type := congrArg (·.type) hbare
    have haccess : e'.access = e.access := congrArg (·.access) hbare
    have hends' : e'.ends? = e.ends? := by rw [hends, hbare, ← hends]
    simp [typeOf, accessOf, endsOf, Arena.fetch, he, he', htype, haccess, hends', bind,
      Except.bind]

namespace Reached

variable {allowed : Settings → Prop} {made : List Address} {s s' : Store} {x : Address}

/-- Whatever was reached before, erasing a live element succeeds and is the cascade. -/
theorem erase_cascades (h : Reached allowed made s) (hx : s.isLive x = true) :
    ∃ order s', (Store.erase x).on s = (.ok order, s') ∧ s.Erases s' x order := by
  obtain ⟨order, s', hrun, hrest, hless, hd, hlast, hmem, -⟩ := h.atRest.erase hx
  have hbare : ∀ a, a ∉ order → s'.arena.bare? a = s.arena.bare? a := fun a ha => by
    rw [hless.arena.bare, if_neg ha]
  refine ⟨order, s', hrun, hd, hlast, hmem, fun a => ?_, fun a ha => ?_, fun a ha => ?_,
    fun a ha => ?_, hless.contents, fun y d hy => ?_, hrest.calm⟩
  · rw [and_comm]
    exact hless.arena.isSome_find?
  · exact (Store.answers_of_bare (hbare a ha)).1
  · exact (Store.answers_of_bare (hbare a ha)).2.1
  · exact (Store.answers_of_bare (hbare a ha)).2.2
  · -- the rings that are left belong to elements that were live before
    obtain ⟨hyorder, hlive⟩ := hless.arena.isSome_find?.1 hy
    obtain ⟨cs, hcs, -⟩ := h.atRest.sound.wired.ring y d hlive
    exact ⟨cs, hcs, hless.arena.ring y d cs hyorder hcs⟩

/-- With the first node of the sample the edge on it goes, and with the edge the arc on that. -/
theorem erase_cascades_sampleStore : sampleStore.isLive ⟨1, 1⟩ = true ∧
    ∃ order s', (Store.erase ⟨1, 1⟩).on sampleStore = (.ok order, s') ∧
      sampleStore.Erases s' ⟨1, 1⟩ order :=
  have hlive : sampleStore.isLive ⟨1, 1⟩ = true := by decide +kernel
  ⟨hlive, reached_sampleStore.erase_cascades hlive⟩

end Reached

/-! ## Dumps -/

namespace Reached

variable {allowed : Settings → Prop} {made : List Address} {s s' : Store}

/-- The link of the sample has the only content, and it is short. -/
theorem contents_sampleStore :
    ∀ a bytes, sampleStore.contents.get? a = some bytes → bytes.length < 2 ^ 32 := by
  intro a bytes hget
  have hlist : sampleStore.contents.toList = [(⟨1, 3⟩, [1, 2])] := by decide +kernel
  rw [← Contents.mem_toList, hlist, List.mem_singleton] at hget
  obtain ⟨-, rfl⟩ := Prod.ext_iff.1 hget
  decide

/-- Whatever the checksum and the settings, the dump of a store whose contents fit is loaded: the
segments are the same slot by slot, the contents are the same, and so is what is counted. Writing
what was loaded gives the same bytes. -/
theorem dump_round_trip (h : Reached allowed made s)
    (hfit : ∀ a bytes, s.contents.get? a = some bytes → bytes.length < 2 ^ 32)
    (check : Bytes → UInt32) (c : Settings) :
    ∃ s', Dump.decode check c (Dump.encode check s)
        = .ok (s', Dump.summarize s (Dump.encode check s)) ∧
      s'.arena.segments = s.arena.segments ∧ s'.arena.capacity = s.arena.capacity ∧
      s'.Calm ∧ s'.contents.entries = s.contents.entries ∧ s'.statistics = s.statistics ∧
      Dump.encode check s' = Dump.encode check s := by
  have hrest := h.atRest
  obtain ⟨contents, hentries, hdecode⟩ := Dump.decode_encode c check hrest hfit
  have hsegments : (Dump.restored c s contents).arena.segments = s.arena.segments :=
    Dump.segments_restored
  have hcapacity : (Dump.restored c s contents).arena.capacity = s.arena.capacity :=
    Dump.capacity_restored hrest.sound.tidy
  -- both censuses are right, so the same slots give the same one
  have hback := Dump.atRest_of_decode hrest hdecode
  have hcensus : (Dump.restored c s contents).census = s.census := by
    rw [hback.sound.census, hrest.sound.census, Arena.kinds, Arena.kinds, Arena.elements,
      hsegments]
    rfl
  refine ⟨_, hdecode, hsegments, hcapacity, hback.calm, hentries, ?_, ?_⟩
  · rw [Store.statistics, Store.statistics, hcensus, Arena.vacant, Arena.vacant, hsegments,
      hcapacity]
  · exact Dump.encode_congr hsegments hcapacity hentries

theorem dump_round_trip_sampleStore :
    (∀ a bytes, sampleStore.contents.get? a = some bytes → bytes.length < 2 ^ 32) ∧
    ∃ s', Dump.decode Crc32.check { maxSegments := 7 } (Dump.encode Crc32.check sampleStore)
        = .ok (s', Dump.summarize sampleStore (Dump.encode Crc32.check sampleStore)) ∧
      s'.arena.segments = sampleStore.arena.segments ∧
      s'.arena.capacity = sampleStore.arena.capacity ∧ s'.Calm ∧
      s'.contents.entries = sampleStore.contents.entries ∧
      s'.statistics = sampleStore.statistics ∧
      Dump.encode Crc32.check s' = Dump.encode Crc32.check sampleStore :=
  ⟨contents_sampleStore,
    reached_sampleStore.dump_round_trip contents_sampleStore Crc32.check { maxSegments := 7 }⟩

end Reached

end SemanticNet
