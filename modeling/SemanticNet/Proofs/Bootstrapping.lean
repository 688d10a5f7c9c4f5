import SemanticNet.Keynodes
import SemanticNet.Proofs.Starting

/-!
# Bootstraps

Keynodes that were resolved are kept with the elements that are found under their names, and they
are found when they are resolved again: the second attempt comes to the same elements and changes
nothing but what is counted of walks (`Reached.bootstrap_idempotent`). An attempt that fails has
resolved the keynodes before one that can not be resolved, and tells the name of that one.
-/

namespace SemanticNet

variable {allowed : Settings → Prop} {made : List Address} {s s' : Store} {c : Session}
  {relation a : Address} {name : String} {spec : KeynodeSpec} {specs : List KeynodeSpec}
  {k k' : Keynodes} {f : Failure}

namespace Keynodes

/-- A keynode is resolved as its name is, but a failure is told with the name. -/
theorem on_resolveOne (c : Session) (relation : Address) (spec : KeynodeSpec) (s : Store) :
    (resolveOne c relation spec).on s
      = (((Naming.resolve c relation spec.name spec.type).on s).1.mapError (.keynode spec.name),
        ((Naming.resolve c relation spec.name spec.type).on s).2) := by
  rw [resolveOne, Step.on_tryCatch]
  rcases (Naming.resolve c relation spec.name spec.type).on s with ⟨f | a, s'⟩ <;> rfl

/-- From `s` on the session resolves the names of the keynodes one after the other, up to `s'`. -/
inductive InTurn (c : Session) (relation : Address) : List KeynodeSpec → Store → Store → Prop where
  | nil (s : Store) : InTurn c relation [] s s
  | cons {spec : KeynodeSpec} {specs : List KeynodeSpec} {a : Address} {s s₁ s' : Store}
      (hfirst : (Naming.resolve c relation spec.name spec.type).on s = (.ok a, s₁))
      (hrest : InTurn c relation specs s₁ s') : InTurn c relation (spec :: specs) s s'

/-- The keynodes with the elements that `g` has for their names, on top of those in `k`. -/
def gather (g : String → Address) (k : Keynodes) (specs : List KeynodeSpec) : Keynodes :=
  specs.foldl (fun k spec => ⟨Assoc.put spec.name (g spec.name) k.entries⟩) k

theorem find?_gather (g : String → Address) (k : Keynodes) (specs : List KeynodeSpec)
    (name : String) :
    (k.gather g specs).find? name
      = if name ∈ specs.map (·.name) then some (g name) else k.find? name := by
  induction specs generalizing k with
  | nil => rfl
  | cons spec specs ih =>
    rw [gather, List.foldl_cons]
    refine (ih _).trans ?_
    rw [find?, Assoc.lookup_put, List.map_cons]
    by_cases hname : name = spec.name
    · subst hname
      rw [if_pos rfl, if_pos List.mem_cons_self, ite_self]
    · rw [if_neg hname, find?]
      simp only [List.mem_cons, hname, false_or]

end Keynodes

/-- The element that the session finds under a name. -/
def Store.elementNamed (s : Store) (c : Session) (relation : Address) (name : String) : Address :=
  ((s.named? c relation (Utf8.encode name)).map (·.element)).getD .empty

theorem Store.Finds.elementNamed_eq (h : s.Finds c relation name a) :
    s.elementNamed c relation name = a := by
  rw [elementNamed, h.2]
  rfl

theorem Store.elementNamed_noteScans (n : Scans) :
    (s.noteScans n).elementNamed c relation = s.elementNamed c relation := by
  funext name
  rw [elementNamed, elementNamed, named?_noteScans]

/-- Keynodes that are all resolved are resolved in turn, they stay resolved, and the outcome is
gathered from what the session finds under their names in the end. -/
theorem Reached.resolveOnto_settles (h : Reached allowed made s) (hc : c.levels.InUse)
    (hread : c.mayRead s relation = true)
    (hrun : (Keynodes.resolveOnto c relation k specs).on s = (.ok k', s')) :
    Naming.Settled allowed c relation s s' ∧ Keynodes.InTurn c relation specs s s' ∧
      (∀ spec ∈ specs, ∃ a, s'.Finds c relation spec.name a) ∧
      k' = k.gather (s'.elementNamed c relation) specs := by
  induction specs generalizing made s k with
  | nil =>
    obtain ⟨hk, rfl⟩ := Prod.mk.inj hrun
    obtain rfl := Except.ok.inj hk
    exact ⟨⟨⟨made, h⟩, hread, fun _ _ => id⟩, .nil s, List.forall_mem_nil _, rfl⟩
  | cons spec specs ih =>
    rw [Keynodes.resolveOnto, Step.on_bind, Keynodes.on_resolveOne] at hrun
    rcases hone : (Naming.resolve c relation spec.name spec.type).on s with ⟨f | a, s₁⟩
    · rw [hone] at hrun
      cases (Prod.mk.inj hrun).1
    · rw [hone] at hrun
      obtain ⟨hsettled, hfinds⟩ := h.settled_of_resolve hc hread hone
      obtain ⟨made₁, h₁⟩ := hsettled.reached
      obtain ⟨hsettled', hturn, hall, rfl⟩ := ih h₁ hsettled.mayRead hrun
      -- what the first one was resolved to is still found in the end
      have hstill := hsettled'.finds spec.name a hfinds
      refine ⟨hsettled.trans hsettled', .cons hone hturn,
        List.forall_mem_cons.2 ⟨⟨a, hstill⟩, hall⟩, ?_⟩
      rw [Keynodes.gather, Keynodes.gather, List.foldl_cons, hstill.elementNamed_eq]

/-- Keynodes that are found are resolved to what is found, and nothing is made. -/
theorem Reached.resolveOnto_of_finds (h : Reached allowed made s) (hr : relation ≠ .empty)
    (hfinds : ∀ spec ∈ specs, ∃ a, s.Finds c relation spec.name a) :
    ∃ n, (Keynodes.resolveOnto c relation k specs).on s
      = (.ok (k.gather (s.elementNamed c relation) specs), s.noteScans n) := by
  induction specs generalizing s k with
  | nil =>
    refine ⟨{}, ?_⟩
    rw [Store.noteScans_zero]
    rfl
  | cons spec specs ih =>
    obtain ⟨⟨a, ha⟩, hrest⟩ := List.forall_mem_cons.1 hfinds
    obtain ⟨m, hone⟩ := h.resolve_of_finds hr ha spec.type
    obtain ⟨n, hrun⟩ := ih (h.noteScans m) (k := ⟨Assoc.put spec.name a k.entries⟩)
      fun spec' hspec' => (hrest spec' hspec').imp fun b hb => hb.noteScans m
    refine ⟨m + n, ?_⟩
    rw [Keynodes.resolveOnto, Step.on_bind, Keynodes.on_resolveOne, hone]
    refine hrun.trans ?_
    rw [Store.noteScans_noteScans, Store.elementNamed_noteScans, Keynodes.gather, Keynodes.gather,
      List.foldl_cons, ha.elementNamed_eq]

/-- An attempt that fails resolved in turn all keynodes before one that could not be resolved, and
it fails with the name of that one. -/
theorem Keynodes.resolveOnto_fails
    (hrun : (resolveOnto c relation k specs).on s = (.error f, s')) :
    ∃ before spec after cause k₁ s₁, specs = before ++ spec :: after ∧
      (resolveOnto c relation k before).on s = (.ok k₁, s₁) ∧ InTurn c relation before s s₁ ∧
      (Naming.resolve c relation spec.name spec.type).on s₁ = (.error cause, s') ∧
      f = .keynode spec.name cause := by
  induction specs generalizing s k with
  | nil => cases (Prod.mk.inj hrun).1
  | cons spec specs ih =>
    rw [resolveOnto, Step.on_bind, on_resolveOne] at hrun
    rcases hone : (Naming.resolve c relation spec.name spec.type).on s with ⟨cause | a, s₁⟩
    · rw [hone] at hrun
      obtain ⟨hf, rfl⟩ := Prod.mk.inj hrun
      exact ⟨[], spec, specs, cause, k, s, rfl, rfl, .nil s, hone, (Except.error.inj hf).symm⟩
    · rw [hone] at hrun
      obtain ⟨before, spec', after, cause, k₁, s₂, rfl, hbefore, hturn, hfails, hf⟩ := ih hrun
      refine ⟨spec :: before, spec', after, cause, k₁, s₂, rfl, ?_, .cons hone hturn, hfails, hf⟩
      rw [resolveOnto, Step.on_bind, on_resolveOne, hone]
      exact hbefore

/-- Whatever was reached, and whatever keynodes are asked for: when a session that may read the
relation node resolves them, then each one is resolved as its name is, and it is kept with the
element that the session finds under the name from then on. Nothing else is kept. Resolving them
once more comes to the same elements and changes nothing but what is counted of walks. When it
fails, the keynodes before one are resolved, the name of that one can not be resolved, and it is the
name that is told. -/
theorem Reached.bootstrap_idempotent (h : Reached allowed made s) (hc : c.levels.InUse)
    (hread : c.mayRead s relation = true) (specs : List KeynodeSpec) :
    (∀ k s', (Keynodes.resolve c relation specs).on s = (.ok k, s') →
      Keynodes.InTurn c relation specs s s' ∧
      (∀ spec ∈ specs, ∃ a, k.find? spec.name = some a ∧ s'.Finds c relation spec.name a) ∧
      (∀ name a, k.find? name = some a → ∃ spec ∈ specs, spec.name = name) ∧
      ∃ n, (Keynodes.resolve c relation specs).on s' = (.ok k, s'.noteScans n)) ∧
    ∀ f s', (Keynodes.resolve c relation specs).on s = (.error f, s') →
      ∃ before spec after cause k₁ s₁, specs = before ++ spec :: after ∧
        (Keynodes.resolve c relation before).on s = (.ok k₁, s₁) ∧
        Keynodes.InTurn c relation before s s₁ ∧
        (Naming.resolve c relation spec.name spec.type).on s₁ = (.error cause, s') ∧
        f = .keynode spec.name cause := by
  constructor
  · intro k s' hrun
    obtain ⟨hsettled, hturn, hfinds, rfl⟩ := h.resolveOnto_settles hc hread hrun
    obtain ⟨made', h'⟩ := hsettled.reached
    obtain ⟨e, he⟩ := Option.isSome_iff_exists.1 (Store.isSome_of_mayRead hsettled.mayRead)
    refine ⟨hturn, fun spec hspec => ?_, fun name a hname => ?_,
      h'.resolveOnto_of_finds (Arena.ne_empty_of_find? he) hfinds⟩
    · obtain ⟨a, ha⟩ := hfinds spec hspec
      refine ⟨a, ?_, ha⟩
      rw [Keynodes.find?_gather, if_pos (List.mem_map_of_mem hspec), ha.elementNamed_eq]
    · rw [Keynodes.find?_gather] at hname
      split at hname
      next hmem => exact List.mem_map.1 hmem
      next => cases hname
  · intro f s' hrun
    exact Keynodes.resolveOnto_fails hrun

/-- Two names, one of them twice. -/
def sampleSpecs : List KeynodeSpec :=
  [{ name := "kind" }, { name := "text", type := .const ||| .link }, { name := "kind" }]

/-- In a memory that was just started the keynodes are made, kept, and found the second time; a name
with a blank is told. -/
theorem Reached.bootstrap_idempotent_startedMemory :
    (∃ k s' n, (Keynodes.resolve ⟨.lowest⟩ startedMemory.relation sampleSpecs).on
          startedMemory.store = (.ok k, s') ∧
        (∀ spec ∈ sampleSpecs, ∃ a, k.find? spec.name = some a ∧
          s'.Finds ⟨.lowest⟩ startedMemory.relation spec.name a) ∧
        (Keynodes.resolve ⟨.lowest⟩ startedMemory.relation sampleSpecs).on s'
          = (.ok k, s'.noteScans n)) ∧
      ∃ cause, ((Keynodes.resolve ⟨.lowest⟩ startedMemory.relation
          (sampleSpecs ++ [{ name := "a b" }])).on startedMemory.store).1
        = .error (.keynode "a b" cause) := by
  obtain ⟨made, h⟩ := started_startedMemory.1.reached
  have hread : (⟨.lowest⟩ : Session).mayRead startedMemory.store startedMemory.relation = true := by
    decide +kernel
  constructor
  · have hok : ((Keynodes.resolve ⟨.lowest⟩ startedMemory.relation sampleSpecs).on
        startedMemory.store).1.isOk = true := by decide +kernel
    rcases hrun : (Keynodes.resolve ⟨.lowest⟩ startedMemory.relation sampleSpecs).on
      startedMemory.store with ⟨f | k, s'⟩
    · rw [hrun] at hok
      cases hok
    · obtain ⟨-, hkept, -, n, hagain⟩ :=
        (h.bootstrap_idempotent Access.inUse_lowest hread sampleSpecs).1 k s' hrun
      exact ⟨k, s', n, rfl, hkept, hagain⟩
  · exact ⟨.invalidIdentifier "a b", by decide +kernel⟩

end SemanticNet
