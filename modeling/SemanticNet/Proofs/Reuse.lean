import SemanticNet.Proofs.Refusals

/-!
# Reuse of slots

The slot of an element that was erased is the next one to be filled. An erasure frees its element
after all that hung on it, whatever segments these were in, so that the slot is on top of the chain
of its segment, and this segment is tried first (`Store.AtRest.erase`). It stays so while requests
make and erase nothing (`Store.AtRest.offers_run`), and then the next creation that succeeds makes
its element there (`Reached.reuses_erased`).
-/

namespace SemanticNet

variable {allowed : Settings → Prop} {made : List Address} {s : Store} {a x : Address}
  {q : Request} {k : Action} {e : Element}

/-! ## Walks -/

namespace Store

/-- A walk does nothing to the store but count what it looked at. -/
theorem on_triples_counts (pattern : Pattern) (levels : Access) (limit : Option Nat) (s : Store) :
    ∃ m, ((triples pattern levels limit).on s).2 = { s with metrics := m } := by
  rw [triples]
  cases Triples.open? pattern levels with
  | error f => exact ⟨s.metrics, rfl⟩
  | ok w => exact ⟨_, rfl⟩

theorem on_quintuples_counts (pattern : MarkedPattern) (levels : Access) (limit : Option Nat)
    (s : Store) : ∃ m, ((quintuples pattern levels limit).on s).2 = { s with metrics := m } := by
  rw [quintuples]
  cases Quintuples.open? pattern levels with
  | error f => exact ⟨s.metrics, rfl⟩
  | ok w => exact ⟨_, rfl⟩

end Store

/-! ## Requests that follow each other -/

namespace Request

/-- The levels of the session and those that it gives are in use. -/
def Admissible : Request → Prop
  | act k => k.Admissible
  | call c k => c.levels.InUse ∧ k.Admissible
  | _ => True

/-- The replies to requests that follow each other, and the store that they leave. -/
def runAll : List Request → Store → List (Except Failure Reply) × Store
  | [], s => ([], s)
  | q :: qs, s =>
    let (r, s) := q.run.on s
    let (rs, s) := runAll qs s
    (r :: rs, s)

/-- A reply that tells of no element that was made and of none that was erased. -/
def Quiet (r : Except Failure Reply) : Prop :=
  (∀ a, r ≠ .ok (.answer (.made a))) ∧ ∀ as, r ≠ .ok (.answer (.erased as))

theorem quiet_error (f : Failure) : Quiet (.error f) := by
  constructor <;> simp

theorem quiet_map {α : Type} {g : α → Reply} (hg : ∀ y r, g y ≠ .answer r) (y : Except Failure α) :
    Quiet (g <$> y) := by
  cases y with
  | error f => exact quiet_error f
  | ok y =>
    constructor
    · exact fun a h => hg y _ (Except.ok.inj h)
    · exact fun as h => hg y _ (Except.ok.inj h)

theorem quiet_ask (q : Question) (s : Store) (a : Address) : Quiet (q.ask s a) := by
  cases q <;> exact quiet_map (by simp) _

theorem quiet_askAs (q : Question) (c : Session) (s : Store) (a : Address) :
    Quiet (q.askAs c s a) := by
  cases q <;> exact quiet_map (by simp) _

/-- A request comes to an operation, or it is refused or answered with nothing done but counting. -/
theorem on_cases (q : Request) (s : Store) :
    (∃ k : Action, (q.Admissible → k.Admissible) ∧
      q.run.on s = (Reply.answer <$> k.run).on s) ∨
    (Quiet (q.run.on s).1 ∧ ∃ m, (q.run.on s).2 = { s with metrics := m }) := by
  cases q with
  | act k => exact .inl ⟨k, id, rfl⟩
  | call c k =>
    rcases k.direct_cases c s with ⟨f, hrefused⟩ | ⟨-, hrun⟩
    · right
      rw [run, Step.on_map, hrefused]
      exact ⟨quiet_error f, s.metrics, rfl⟩
    · refine .inl ⟨k.action c, fun h => Draft.Call.admissible_action h.1 h.2, ?_⟩
      rw [run, Step.on_map, Step.on_map, hrun]
  | ask q a => exact .inr ⟨quiet_ask q s a, s.metrics, rfl⟩
  | askAs c q a => exact .inr ⟨quiet_askAs q c s a, s.metrics, rfl⟩
  | sourceOf c a => exact .inr ⟨quiet_map (by simp) _, s.metrics, rfl⟩
  | targetOf c a => exact .inr ⟨quiet_map (by simp) _, s.metrics, rfl⟩
  | textOf c a => exact .inr ⟨quiet_map (by simp) _, s.metrics, rfl⟩
  | triples c pattern limit =>
    rw [run, Step.on_map]
    exact .inr ⟨quiet_map (by simp) _, Store.on_triples_counts pattern c.levels limit s⟩
  | quintuples c pattern limit =>
    rw [run, Step.on_map]
    exact .inr ⟨quiet_map (by simp) _, Store.on_quintuples_counts pattern c.levels limit s⟩

end Request

/-! ## The slot that waits -/

/-- An operation that makes or erases elements and succeeds says so. -/
theorem Action.answer_of_isStructural {r : Answer} (hk : k.IsStructural)
    (hrun : (k.run.on s).1 = .ok r) : (∃ a, r = .made a) ∨ ∃ as, r = .erased as := by
  cases k with
  | addNode | addLink | connect =>
    obtain ⟨a, -, rfl⟩ := Step.on_map_eq_ok_iff.1 hrun
    exact .inl ⟨a, rfl⟩
  | erase =>
    obtain ⟨as, -, rfl⟩ := Step.on_map_eq_ok_iff.1 hrun
    exact .inr ⟨as, rfl⟩
  | narrow | setAccess | setContent | commit => exact hk.elim

/-- An operation that makes an element is a creation. -/
theorem Action.exists_element? (hrun : (k.run.on s).1 = .ok (.made a)) :
    ∃ e, k.element? = some e := by
  cases k with
  | addNode | addLink | connect => exact ⟨_, rfl⟩
  | erase | narrow | setAccess | setContent | commit =>
    obtain ⟨r, -, hr⟩ := Step.on_map_eq_ok_iff.1 hrun
    cases hr

namespace Store

theorem arena_noting (s : Store) (f : Failure) : (s.noting f).arena = s.arena := by
  cases f <;> rfl

/-- What makes nothing and erases nothing leaves the slot that is handed out next as it is. -/
theorem AtRest.offers_run (h : s.AtRest made) (hx : s.arena.Offers x)
    (hmade : ∀ a, (k.run.on s).1 ≠ .ok (.made a))
    (herased : ∀ as, (k.run.on s).1 ≠ .ok (.erased as)) : (k.run.on s).2.arena.Offers x := by
  by_cases hk : k.IsStructural
  · cases hr : (k.run.on s).1 with
    | ok r =>
      rcases Action.answer_of_isStructural hk hr with ⟨a, rfl⟩ | ⟨as, rfl⟩
      · exact absurd hr (hmade a)
      · exact absurd hr (herased as)
    | error f =>
      -- it failed, so it has done nothing
      obtain ⟨hsame, -⟩ := h.harmless_action k f _ (Prod.ext hr rfl)
      have harena : (k.run.on s).2.arena = s.arena :=
        (congrArg (·.arena) hsame).trans (arena_noting s f)
      rwa [harena]
  · have hparallel : Arena.Parallel fun t t' => t' = t ∧ t.Offers x :=
      Arena.parallel_of_update fun t a f ht => by
        rwa [Arena.Offers, Arena.vacancy?_update]
    exact (Action.respects_of_not_isStructural hparallel hk s s ⟨rfl, hx⟩).2.2

/-! ## The next creation -/

/-- An element that is made comes to stand in the slot that is handed out. -/
theorem Sound.make_of_offers (h : s.Sound made) (hx : s.arena.Offers x)
    (hempty : ∀ d, e.ring d = {}) (hends : ∀ p ∈ e.places, (s.arena.find? p.1).isSome) :
    ((Store.make e).on s).1 = .ok x := by
  obtain ⟨t, hallocate⟩ := hx.allocate e
  rcases h.make hempty hends with ⟨c, t', s', hrun, hmade, -⟩ | ⟨s', -, hfull, -⟩
  · obtain ⟨rfl, -⟩ : x = c ∧ t = t' := by simpa [hallocate] using hmade
    rw [hrun]
  · simp [hallocate] at hfull

/-- A creation makes its element there if its arguments are as they have to be. -/
theorem AtRest.creation_of_offers (h : s.AtRest made) (hx : s.arena.Offers x)
    (hk : k.element? = some e) :
    (s.Admits k ∧ (k.run.on s).1 = .ok (.made x)) ∨
      (¬s.Admits k ∧ ∃ f, (k.run.on s).1 = .error f ∧ f.OfArguments) := by
  obtain ⟨y, hy, hif⟩ := h.calm.makesIf hk
  rw [hy, Step.on_map]
  rcases hif with ⟨hadmits, hrun⟩ | ⟨hnot, f, hrun, hf⟩
  · have hmake := h.sound.make_of_offers hx (ring_of_element? hk) (hadmits.isSome_find? hk)
    exact .inl ⟨hadmits, by rw [hrun, hmake]; rfl⟩
  · exact .inr ⟨hnot, f, by rw [hrun]; rfl, hf⟩

/-- The next element that is made comes to stand at `x`: every request that makes one makes it
there, and a creation makes one just when its arguments are as they have to be. -/
structure Reuses (s : Store) (x : Address) : Prop where
  made : ∀ (q : Request) a, (q.run.on s).1 = .ok (.answer (.made a)) → a = x
  made_iff : ∀ k e, Action.element? k = some e →
    ((k.run.on s).1 = .ok (.made x) ↔ s.Admits k)

theorem AtRest.reuses (h : s.AtRest made) (hx : s.arena.Offers x) : s.Reuses x where
  made q a hq := by
    rcases q.on_cases s with ⟨k, -, hrun⟩ | ⟨hquiet, -⟩
    · rw [hrun, Step.on_map_eq_ok_iff] at hq
      obtain ⟨r, hmade, hr⟩ := hq
      obtain rfl : r = .made a := Reply.answer.inj hr
      obtain ⟨e, hk⟩ := Action.exists_element? hmade
      rcases h.creation_of_offers hx hk with ⟨-, hmade'⟩ | ⟨-, f, hfail, -⟩
      · simpa [hmade'] using hmade.symm
      · simp [hfail] at hmade
    · exact absurd hq (hquiet.1 a)
  made_iff k e hk := by
    rcases h.creation_of_offers hx hk with ⟨hadmits, hmade⟩ | ⟨hnot, f, hfail, -⟩
    · simp [hmade, hadmits]
    · simp [hfail, hnot]

end Store

namespace Reached

/-- A request reaches a store again. -/
theorem request (h : Reached allowed made s) (hq : q.Admissible) :
    ∃ made', Reached allowed made' (q.run.on s).2 := by
  rcases q.on_cases s with ⟨k, hk, hrun⟩ | ⟨-, m, hcounted⟩
  · rw [hrun, Step.on_map]
    exact ⟨_, h.act k (hk hq)⟩
  · rw [hcounted]
    exact ⟨made, h.counted m⟩

/-- The slot that is handed out next waits while requests make and erase nothing. -/
theorem offers_request (h : Reached allowed made s) (hx : s.arena.Offers x)
    (hquiet : Request.Quiet (q.run.on s).1) : (q.run.on s).2.arena.Offers x := by
  rcases q.on_cases s with ⟨k, -, hrun⟩ | ⟨-, m, hcounted⟩
  · rw [hrun, Step.on_map] at hquiet ⊢
    refine h.atRest.offers_run hx (fun a ha => hquiet.1 a ?_) fun as has => hquiet.2 as ?_
    · rw [ha]
      rfl
    · rw [has]
      rfl
  · rw [hcounted]
    exact hx

theorem offers_requests {qs : List Request} (h : Reached allowed made s) (hx : s.arena.Offers x)
    (hqs : ∀ q ∈ qs, q.Admissible) (hquiet : ∀ r ∈ (Request.runAll qs s).1, Request.Quiet r) :
    (∃ made', Reached allowed made' (Request.runAll qs s).2) ∧
      (Request.runAll qs s).2.arena.Offers x := by
  induction qs generalizing made s with
  | nil => exact ⟨⟨made, h⟩, hx⟩
  | cons q qs ih =>
    obtain ⟨made', h'⟩ := h.request (hqs q List.mem_cons_self)
    have hx' := h.offers_request hx (hquiet _ List.mem_cons_self)
    exact ih h' hx' (fun p hp => hqs p (List.mem_cons_of_mem q hp)) fun r hr =>
      hquiet r (List.mem_cons_of_mem _ hr)

/-- Whatever was reached, a live element is erased, and however many requests follow that make and
erase nothing, the next element that is made comes to stand where it stood. -/
theorem reuses_erased (h : Reached allowed made s) (hx : s.isLive x = true) :
    ∃ order s', (Store.erase x).on s = (.ok order, s') ∧
      ∀ qs : List Request, (∀ q ∈ qs, q.Admissible) →
        (∀ r ∈ (Request.runAll qs s').1, Request.Quiet r) → (Request.runAll qs s').2.Reuses x := by
  obtain ⟨order, s', hrun, -, -, -, -, -, hoffers⟩ := h.atRest.erase hx
  have h' := h.act (.erase x) trivial
  rw [Action.run, Step.on_map, hrun] at h'
  refine ⟨order, s', hrun, fun qs hqs hquiet => ?_⟩
  obtain ⟨⟨made', hreached⟩, hoffered⟩ := h'.offers_requests hoffers hqs hquiet
  exact hreached.atRest.reuses hoffered

end Reached

/-! ## A cascade over two segments -/

/-- Two nodes that fill a segment, an arc between them and a node in a second one, and a node in a
third one, which is erased again. -/
def spreadActions : List Action :=
  [.addNode .const .lowest, .addNode .const .lowest, .connect .commonArc ⟨1, 1⟩ ⟨1, 2⟩ .lowest,
    .addNode .const .lowest, .addNode .const .lowest, .erase ⟨3, 1⟩]

def spreadStore : Store := (Action.runAll spreadActions (.ofSettings narrowSettings)).2

/-- A type that is asked for and narrowed, an erasure and a creation that are refused, a walk, and a
commit. -/
def quietRequests : List Request :=
  [.ask .type ⟨1, 2⟩, .act (.narrow ⟨1, 2⟩ .classNode), .act (.erase ⟨3, 1⟩),
    .call ⟨.lowest⟩ (.connect .commonArc ⟨1, 2⟩ ⟨1, 1⟩),
    .triples ⟨.lowest⟩ ⟨.fixed ⟨1, 2⟩, .any .unknown, .any .unknown⟩ none,
    .act (.commit { id := 1 })]

theorem reached_spreadStore : ∃ made, Reached (· = narrowSettings) made spreadStore := by
  have hadmissible : ∀ k ∈ spreadActions, k.Admissible := by
    simp [spreadActions, Action.Admissible, Access.inUse_lowest]
  exact ⟨_, (@Reached.fresh (· = narrowSettings) _ rfl).runAll hadmissible⟩

/-- What is left without the first node and the arc on it. -/
def sparedStore : Store := ((Store.erase ⟨1, 1⟩).on spreadStore).2

theorem quiet_quietRequests :
    ∀ r ∈ (Request.runAll quietRequests sparedStore).1, Request.Quiet r := by
  have hreplies : (Request.runAll quietRequests sparedStore).1
      = [.ok (.type (.const ||| .node)), .ok (.answer .done), .error (.notLive ⟨3, 1⟩),
        .error (.notLive ⟨1, 1⟩), .ok (.triples []), .ok (.answer .done)] := by
    decide +kernel
  simp [hreplies, Request.Quiet]

/-- The arc in the second segment goes with the first node. The next node comes to stand where the
first one stood. -/
theorem Reached.reuses_erased_spreadStore :
    spreadStore.isLive ⟨1, 1⟩ = true ∧
    (Store.erase ⟨1, 1⟩).on spreadStore = (.ok [⟨2, 1⟩, ⟨1, 1⟩], sparedStore) ∧
    (∀ q ∈ quietRequests, q.Admissible) ∧
    (∀ r ∈ (Request.runAll quietRequests sparedStore).1, Request.Quiet r) ∧
    (Request.runAll quietRequests sparedStore).2.Reuses ⟨1, 1⟩ ∧
    ((Action.addNode .const .lowest).run.on (Request.runAll quietRequests sparedStore).2).1
      = .ok (.made ⟨1, 1⟩) := by
  have hlive : spreadStore.isLive ⟨1, 1⟩ = true := by decide +kernel
  have hleft : ((Store.erase ⟨1, 1⟩).on spreadStore).2 = sparedStore := by rw [sparedStore]
  have herased : ((Store.erase ⟨1, 1⟩).on spreadStore).1 = .ok [⟨2, 1⟩, ⟨1, 1⟩] := by
    decide +kernel
  have herase : (Store.erase ⟨1, 1⟩).on spreadStore = (.ok [⟨2, 1⟩, ⟨1, 1⟩], sparedStore) := by
    rw [← herased, ← hleft]
  have hadmissible : ∀ q ∈ quietRequests, q.Admissible := by
    simp [quietRequests, Request.Admissible, Action.Admissible, Draft.Call.Admissible,
      Access.inUse_lowest, Staging.InUse]
  obtain ⟨made, h⟩ := reached_spreadStore
  obtain ⟨order, s', hrun, hreuses⟩ := h.reuses_erased hlive
  obtain ⟨-, hs'⟩ := Prod.mk.inj (hrun.symm.trans herase)
  rw [hs'] at hreuses
  have hreused := hreuses quietRequests hadmissible quiet_quietRequests
  exact ⟨hlive, herase, hadmissible, quiet_quietRequests, hreused,
    (hreused.made_iff (.addNode .const .lowest) _ rfl).2 ⟨rfl, rfl⟩⟩

end SemanticNet
