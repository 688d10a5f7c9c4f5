import SemanticNet.Proofs.Counting

/-!
# The kinds of loaded elements

A dump may hold elements whose types have no bit of a kind; loading only asks that a connection
stands where a connector bit is (`Element.Formed`). Elements with a kind keep it, whatever else the
dump holds. One without a kind counts as a node until it is narrowed to a connector, and then has no
connection and is still counted as a node. So on what is loaded the kinds are fixed just when every
element has one (`Dump.kindsFixed_of_decode`).
-/

namespace SemanticNet

namespace Action

/-- Operations that follow others. -/
theorem runAll_append (ks ks' : List Action) (s : Store) :
    (runAll (ks ++ ks') s).2 = (runAll ks' (runAll ks s).2).2 := by
  induction ks generalizing s with
  | nil => rfl
  | cons k ks ih => exact ih _

/-- An element of a kind stays, and keeps its mould and its ends. -/
theorem mould_runAll {s : Store} {ks : List Action} {a : Address} {e : Element} (h : s.Regular)
    (hks : ∀ k ∈ ks, k.Spares) (he : s.arena.find? a = some e)
    (hk : e.type.kind.isUnknown = false) :
    ∃ e', (runAll ks s).2.arena.find? a = some e' ∧ e'.type.mould = e.type.mould ∧
      e'.ends? = e.ends? := by
  obtain ⟨n, hn, hbecomes⟩ := persists_runAll h hks a e.nature (Arena.nature?_of_find? he)
  obtain ⟨e', he', rfl⟩ := Arena.nature?_eq_some_iff.1 hn
  exact ⟨e', he', hbecomes.type.mould hk, hbecomes.ends⟩

end Action

/-- Whatever is done but erasing, the elements keep their kinds from when they are made or loaded,
the connectors and no others have connections, and as many elements of each kind are live as are
counted. -/
structure Store.KindsFixed (s : Store) : Prop where
  kept : ∀ ks ks', (∀ k ∈ ks ++ ks', k.Spares) → ∀ a l,
    (Action.runAll ks s).2.arena.kind? a = some l →
      (Action.runAll (ks ++ ks') s).2.arena.kind? a = some l
  connection : ∀ ks, (∀ k ∈ ks, k.Spares) → ∀ a e,
    (Action.runAll ks s).2.arena.find? a = some e → e.connection.isSome = e.type.isConnector
  census : ∀ ks, (∀ k ∈ ks, k.Spares) → ∀ l,
    ((Action.runAll ks s).2.statistics.census.of l).toNat = (Action.runAll ks s).2.arena.liveOf l

namespace Store

variable {s : Store} {b : Opening} {a : Address} {e : Element}

/-- In a store that is counted right everything has a kind, so the kinds are fixed. -/
theorem Counted.kindsFixed (h : s.Counted b) : s.KindsFixed := by
  have hrun : ∀ ks, (Action.runAll ks s).2.Counted b := fun ks =>
    Action.keeps_runAll Action.keeps_counted ks h
  refine ⟨fun ks ks' hks a l hl => ?_, fun ks _ a e he => ?_, fun ks _ l => ?_⟩
  · obtain ⟨e, he, rfl⟩ := Option.map_eq_some_iff.1 hl
    have hk := ((hrun ks).clear a e.nature (Arena.nature?_of_find? he)).kind
    obtain ⟨e', he', hmould, -⟩ := Action.mould_runAll (hrun ks).regular
      (fun k hk => hks k (List.mem_append_right ks hk)) he hk
    rw [Action.runAll_append, Arena.kind?, he', Option.map_some, ElementType.sort_of_mould hmould]
  · have hends := ((hrun ks).clear a e.nature (Arena.nature?_of_find? he)).ends
    rwa [← Element.isSome_ends?]
  · rw [statistics, (hrun ks).census]
    exact (Arena.Regular.addressable (hrun ks).regular).toNat_tally l

/-- What has no kind counts as a node until it is narrowed to a connector. -/
theorem not_kindsFixed (he : s.arena.find? a = some e) (hk : e.type.kind.isUnknown = true) :
    ¬s.KindsFixed := by
  intro hfixed
  let edge : Element → Element := ({ · with type := .commonEdge ||| e.type })
  have hrun : (narrow a .commonEdge).on s
      = (.ok (), { s with arena := s.arena.update a edge }) := by
    have hnarrowed : s.narrowed a .commonEdge = .ok (.commonEdge ||| e.type) :=
      narrowed_ok_iff.2 ⟨e, he, ElementType.narrow?_commonEdge hk⟩
    rw [narrow, Step.on_bind, Step.on_ask, hnarrowed]
    exact on_alter he
  have hafter : (Action.runAll [.narrow a .commonEdge] s).2.arena = s.arena.update a edge := by
    rw [Action.runAll, Action.run, Step.on_map, hrun]
    rfl
  have hbefore : s.arena.kind? a = some .node := by
    rw [Arena.kind?, he, Option.map_some, ElementType.sort_of_unknown hk]
  have hkept := hfixed.kept [] [.narrow a .commonEdge] (by simp [Action.Spares]) a .node hbefore
  rw [List.nil_append, hafter, Arena.kind?, Arena.find?_update, if_pos rfl, he, Option.map_some,
    Option.map_some, ElementType.sort_commonEdge_or] at hkept
  cases hkept

end Store

namespace Dump

variable {check : Bytes → UInt32} {settings : Settings} {bytes : Bytes} {s : Store} {y : Summary}

/-- What is loaded is counted right when all elements have kinds. -/
theorem counted_of_decode (h : decode check settings bytes = .ok (s, y))
    (hk : ∀ a e, s.arena.find? a = some e → e.type.kind.isUnknown = false) :
    s.Counted s.opening := by
  refine Store.counted_opening (regular_of_decode h) (fun a n hn => ?_) (census_of_decode h)
    fun m hm => ?_
  · obtain ⟨e, he, rfl⟩ := Arena.nature?_eq_some_iff.1 hn
    refine ⟨hk a e he, ?_⟩
    exact Element.isSome_ends?.trans ((wellFormed_of_decode h).element a e he).connection
  · obtain ⟨capacity, count, t, contents, m', bytes₁, bytes₂, bytes₃, bytes₄, -, -, rfl⟩ :=
      sections_of_decode h
    have hm : (if settings.metrics then some ({} : Metrics) else none) = some m := hm
    split at hm
    · exact (Option.some.inj hm).symm
    · cases hm

/-- Whatever dump is accepted, an element of a kind keeps it, and its ends with it, from any time on
while nothing is erased. All this holds of every element, and the counts stay right, just when every
element of the dump has a kind. -/
theorem kindsFixed_of_decode (h : decode check settings bytes = .ok (s, y)) :
    (∀ ks ks', (∀ k ∈ ks ++ ks', k.Spares) → ∀ a e,
      (Action.runAll ks s).2.arena.find? a = some e → e.type.kind.isUnknown = false →
      ∃ e', (Action.runAll (ks ++ ks') s).2.arena.find? a = some e' ∧ e'.type.kind = e.type.kind ∧
        e'.type.sort = e.type.sort ∧ e'.ends? = e.ends?) ∧
    (s.KindsFixed ↔ ∀ a e, s.arena.find? a = some e → e.type.kind.isUnknown = false) := by
  refine ⟨fun ks ks' hks a e he hk => ?_, fun hfixed a e he => ?_, fun hk => ?_⟩
  · have hregular := Action.keeps_runAll Action.keeps_regular ks (regular_of_decode h)
    obtain ⟨e', he', hmould, hends⟩ := Action.mould_runAll hregular
      (fun k hk => hks k (List.mem_append_right ks hk)) he hk
    rw [Action.runAll_append]
    exact ⟨e', he', ElementType.kind_of_mould hmould, ElementType.sort_of_mould hmould, hends⟩
  · cases hk : e.type.kind.isUnknown with
    | false => rfl
    | true => exact absurd hfixed (Store.not_kindsFixed he hk)
  · exact (counted_of_decode h hk).kindsFixed

end Dump

/-- The sample is loaded with its kinds, and they are fixed. -/
theorem Dump.kindsFixed_of_decode_sampleStore :
    ∃ s y, decode Crc32.check .small (encode Crc32.check sampleStore) = .ok (s, y) ∧
      (∀ a e, s.arena.find? a = some e → e.type.kind.isUnknown = false) ∧ s.KindsFixed := by
  obtain ⟨contents, -, hload⟩ := decode_encode .small Crc32.check reached_sampleStore.atRest
    Reached.contents_sampleStore
  have hback : Reached (· = .small) sampleMade _ :=
    .loaded Crc32.check rfl reached_sampleStore hload
  have hkinds := fun a e he => (hback.atRest.sound.proper a e he).kind
  exact ⟨_, _, hload, hkinds, (kindsFixed_of_decode hload).2.2 hkinds⟩

/-! ## A node that becomes a connector -/

/-- One segment of two slots, of which the first one holds an element that is constant and of no
kind. -/
def kindlessImage : SegmentImage :=
  { number := 1
    lastEngaged := 1
    freeHead := 0
    free := []
    live := [(1, { type := .const, access := .lowest })] }

def kindlessBody : Bytes :=
  Dump.signature ++ littleEndian 2 Dump.formatVersion ++ littleEndian 2 2 ++ littleEndian 2 1 ++
    kindlessImage.toBytes ++ littleEndian 4 0

def kindlessDump : Bytes := kindlessBody ++ littleEndian 4 (Crc32.check kindlessBody).toNat

/-- What is made of the element of no kind. -/
def edgeActions : List Action := [.narrow ⟨1, 1⟩ .commonEdge]

/-- What was a node is a connector without a connection, and is counted as a node. -/
def Store.Strays (s : Store) : Prop :=
  s.arena.kind? ⟨1, 1⟩ = some .node ∧ (Action.runAll edgeActions s).1 = [.ok .done] ∧
    ((Action.runAll edgeActions s).2.arena.find? ⟨1, 1⟩).map
      (fun e => (e.type.sort, e.connection)) = some (.connector, none) ∧
    (Action.runAll edgeActions s).2.statistics.census = ⟨1, 0, 0⟩ ∧
    (Action.runAll edgeActions s).2.arena.liveOf .connector = 1

instance (s : Store) : Decidable s.Strays := inferInstanceAs (Decidable (_ ∧ _ ∧ _ ∧ _ ∧ _))

/-- A dump is accepted although an element has no kind, and narrowing makes that a connector. -/
theorem accepted_without_kind :
    ∃ s y, Dump.decode Crc32.check .small kindlessDump = .ok (s, y) ∧ ¬s.KindsFixed ∧
      s.Strays := by
  have hrun : ((Dump.readBody .small).run' kindlessBody).toOption.any (·.1.Strays) = true := by
    decide +kernel
  cases hread : (Dump.readBody .small).run' kindlessBody with
  | error f =>
    rw [hread] at hrun
    cases hrun
  | ok x =>
    obtain ⟨s, n⟩ := x
    rw [hread] at hrun
    have hstrays : s.Strays := of_decide_eq_true hrun
    have hload : ∃ y, Dump.decode Crc32.check .small kindlessDump = .ok (s, y) := by
      rw [kindlessDump, Dump.decode_append, hread]
      exact ⟨_, rfl⟩
    have hloose : ¬s.KindsFixed := by
      intro hfixed
      obtain ⟨-, -, -, hcensus, hlive⟩ := hstrays
      have hcount := hfixed.census edgeActions (by simp [edgeActions, Action.Spares]) .connector
      rw [hcensus, hlive] at hcount
      cases hcount
    obtain ⟨y, hload⟩ := hload
    exact ⟨s, y, hload, hloose, hstrays⟩

end SemanticNet
