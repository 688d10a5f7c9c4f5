import SemanticNet.Proofs.Committing
import SemanticNet.Proofs.Outcomes
import SemanticNet.Proofs.Regularity
import SemanticNet.Proofs.Searching

/-!
# Operations and contents

Contents are kept apart from the elements they belong to, by address. What setting and erasing
contents keep, every operation keeps (`Contents.Kept.run`), so a search finds what there is in every
store (`Obtained.indexed`). What an operation makes has no content, and what stays has the content
that the operation gave it or the one from before (`Action.get?_of_made`, `Action.get?_of_stays`).
-/

namespace SemanticNet

/-! ## What every change of contents keeps -/

/-- Setting and erasing contents keep `P`. -/
structure Contents.Kept (P : Contents byteHash → Prop) : Prop where
  set : ∀ c a bytes, P c → P (c.set a bytes)
  erase : ∀ c a, P c → P (c.erase a)

/-- The contents of a store have the property `P`. -/
def Store.Contain (P : Contents byteHash → Prop) (s : Store) : Prop := P s.contents

namespace Contents.Kept

open Step (Keeps)
open Store (Contain)

variable {P : Contents byteHash → Prop}

theorem onArena {α : Type} (x : Step Arena α) : Keeps (Contain P) (Store.onArena x) :=
  fun _ h => h

/-! ### Creations -/

theorem insert (e : Element) : Keeps (Contain P) (Store.insert e) := by
  intro s hs
  rw [Contain, (Store.insert_on e s).2.2]
  exact hs

theorem addNode (type : ElementType) (access : Access) :
    Keeps (Contain P) (Store.addNode type access) := by
  rw [Store.addNode, Machinery.addNode]
  split
  · exact (Step.keeps_throw _).bind fun _ => insert _
  · exact insert _

theorem addLink (type : ElementType) (access : Access) :
    Keeps (Contain P) (Store.addLink type access) := by
  rw [Store.addLink, Machinery.addLink]
  split
  · exact (Step.keeps_throw _).bind fun _ => insert _
  · exact insert _

theorem connect (type : ElementType) (source target : Address) (access : Access) :
    Keeps (Contain P) (Store.connect type source target access) := by
  have hmake : Keeps (Contain P)
      (Store.make { type, access, connection := some { source, target } }) :=
    (insert _).bind fun c => (onArena _).bind fun _ => Step.keeps_pure c
  have hends : Keeps (Contain P) (do
      Step.ask (·.requireStaying source)
      Step.ask (·.requireStaying target)
      Store.make { type, access, connection := some { source, target } }) :=
    (Step.keeps_ask _).bind fun _ => (Step.keeps_ask _).bind fun _ => hmake
  refine Keeps.guarded fun _ => Keeps.guarded fun _ => ?_
  split
  · exact (Step.keeps_throw _).bind fun _ => hends
  · exact hends

/-! ### Erasures -/

variable (h : Kept P)
include h

theorem release (a : Address) : Keeps (Contain P) (Store.release a) := by
  refine (Step.keeps_ask _).bind fun e => ?_
  split
  · exact Step.keeps_pure _
  · have hdrop : Keeps (Contain P) (Step.change (Store.dropContent a e.type)) := by
      intro s hs
      show P (Store.dropContent a e.type s).contents
      rw [Store.dropContent]
      split
      · exact h.erase s.contents a hs
      · exact hs
    have hnote : Keeps (Contain P) (Step.change (·.noteErased e.type.sort)) := fun _ hs => hs
    exact (onArena _).bind fun _ => hdrop.bind fun _ => (onArena _).bind fun _ =>
      hnote.bind fun _ => Step.keeps_pure _

theorem eraseAt (a : Address) : Keeps (Contain P) (Store.erase a) :=
  Store.keeps_erase h.release (fun _ _ hs => hs) (fun _ _ hs => hs) a

/-! ### Changes -/

theorem setContent (a : Address) (bytes : Bytes) : Keeps (Contain P) (Store.setContent a bytes) :=
  (Step.keeps_ask _).bind fun _ s hs => h.set s.contents a bytes hs

theorem applyAll (ks : List Change) : Keeps (Contain P) (Store.applyAll ks) := by
  induction ks with
  | nil => exact Step.keeps_pure _
  | cons k ks ih =>
    refine Keeps.bind ?_ fun _ => ih
    cases k with
    | setType a m => exact onArena _
    | setAccess a access => exact onArena _
    | setContent a bytes => exact h.setContent a bytes

/-- What setting and erasing contents keep, every operation keeps. -/
theorem run (k : Action) : Keeps (Contain P) k.run := by
  cases k with
  | addNode type access => exact (addNode type access).map _
  | addLink type access => exact (addLink type access).map _
  | connect type source target access => exact (connect type source target access).map _
  | erase a => exact (h.eraseAt a).map _
  | narrow a type => exact ((Step.keeps_ask _).bind fun _ => onArena _).map _
  | setAccess a access => exact (onArena _).map _
  | setContent a bytes => exact (h.setContent a bytes).map _
  | commit x => exact (Transaction.keeps_commit (fun s _ ks hs _ => h.applyAll ks s hs) x).map _

end Contents.Kept

theorem Contents.kept_indexed : Contents.Kept Contents.Indexed where
  set _ a bytes h := h.set a bytes
  erase _ a h := h.erase a

/-- In every store a search by bytes finds what there is, from whatever dump the store was loaded.
-/
theorem Obtained.indexed {s : Store} (h : Obtained s) : s.contents.Indexed := by
  induction h with
  | fresh c => exact Contents.indexed_empty
  | loaded check c bytes hload =>
    obtain ⟨capacity, count, t, contents, m, bytes₁, bytes₂, bytes₃, bytes₄, -, hcontents, rfl⟩ :=
      Dump.sections_of_decode hload
    exact Dump.readContents_induction (P := Contents.Indexed) hcontents Contents.indexed_empty
      fun c a content _ _ hc => hc.set a content
  | act k _ ih => exact Contents.kept_indexed.run k _ ih
  | counted m _ ih => exact ih

theorem Reached.obtained {allowed : Settings → Prop} {made : List Address} {s : Store}
    (h : Reached allowed made s) : Obtained s := by
  induction h with
  | fresh hc => exact .fresh _
  | act k _ _ ih => exact .act k ih
  | counted m _ ih => exact .counted m ih
  | loaded check _ _ hload _ => exact .loaded check _ _ hload

/-! ## What was done -/

/-- An operation and the answer to it. -/
abbrev LogEntry := Action × Except Failure Answer

/-- The content that an operation gave what is at `a`, if it gave any. A commit gives what was
staged. -/
def LogEntry.given? (a : Address) : LogEntry → Option Bytes
  | (.setContent b bytes, .ok .done) => if a = b then some bytes else none
  | (.commit x, .ok .done) => x.staged.content? a
  | _ => none

/-- What a commit applies was staged by recording it. -/
def Action.StagedByRecording : Action → Prop
  | commit x => x.staged.Recorded
  | addNode _ _ | addLink _ _ | connect _ _ _ _ | erase _ | narrow _ _ | setAccess _ _
  | setContent _ _ => True

/-- The stores that are reached from a new one (`Reached`), with the log of all operations on the
way, the last one first. -/
inductive Ran (allowed : Settings → Prop) : List LogEntry → Store → Prop where
  | fresh {c : Settings} (hc : allowed c) : Ran allowed [] (.ofSettings c)
  | act {log : List LogEntry} {s : Store} (k : Action) (hk : k.Admissible)
      (hstaged : k.StagedByRecording) (h : Ran allowed log s) :
      Ran allowed ((k, (k.run.on s).1) :: log) (k.run.on s).2
  | counted {log : List LogEntry} {s : Store} (m : Option Metrics) (h : Ran allowed log s) :
      Ran allowed log { s with metrics := m }
  | loaded {log : List LogEntry} {s s' : Store} {c : Settings} {y : Dump.Summary}
      (check : Bytes → UInt32) (hc : allowed c) (h : Ran allowed log s)
      (hload : Dump.decode check c (Dump.encode check s) = .ok (s', y)) : Ran allowed log s'

namespace Ran

variable {allowed : Settings → Prop} {log : List LogEntry} {s : Store}

theorem reached (h : Ran allowed log s) :
    Reached allowed (log.flatMap fun entry => madeBy entry.2) s := by
  induction h with
  | fresh hc => exact .fresh hc
  | act k hk _ _ ih => exact .act k hk ih
  | counted m _ ih => exact .counted m ih
  | loaded check hc _ hload ih => exact .loaded check hc ih hload

theorem runAll (h : Ran allowed log s) {ks : List Action} (hks : ∀ k ∈ ks, k.Admissible)
    (hstaged : ∀ k ∈ ks, k.StagedByRecording) :
    Ran allowed ((ks.zip (Action.runAll ks s).1).reverse ++ log) (Action.runAll ks s).2 := by
  induction ks generalizing log s with
  | nil => exact h
  | cons k ks ih =>
    have hk := h.act k (hks k List.mem_cons_self) (hstaged k List.mem_cons_self)
    have hall := ih hk (fun l hl => hks l (List.mem_cons_of_mem k hl))
      fun l hl => hstaged l (List.mem_cons_of_mem k hl)
    simpa [Action.runAll] using hall

end Ran

/-! ## What an operation does to contents -/

namespace Action

variable {s : Store} {made : List Address} {k : Action} {a : Address}

/-- What is new has no content. -/
theorem get?_of_made (hk : k.Admissible) (h : s.AtRest made)
    (hmade : (k.run.on s).1 = .ok (.made a)) : (k.run.on s).2.contents.get? a = none := by
  rcases run_cases k hk h with ⟨c, e, hrun, hcreated⟩ | ⟨x, order, -, hrun, -⟩ | ⟨hnot, -⟩
  · obtain rfl : c = a := by
      rw [hrun] at hmade
      cases hmade
      rfl
    rw [hcreated.contents, Option.eq_none_iff_forall_ne_some]
    intro bytes hget
    have hlink := h.sound.contents c (Option.isSome_of_eq_some hget)
    simp [Arena.isLinkAt, hcreated.grown.fresh] at hlink
  · cases hrun.symm.trans hmade
  · exact absurd hmade (hnot a)

theorem contents_of_creates {x : Step Store Address} (h : Store.Creates x s) :
    ((Answer.made <$> x).on s).2.contents = s.contents := by
  rw [Step.on_map]
  rcases h with ⟨c, e, s', hrun, hcreated⟩ | ⟨f, s', hrun, hagrees⟩
  · rw [hrun]
    exact hcreated.contents
  · rw [hrun]
    exact hagrees.contents

/-- What stays has the content that the operation gave it, or the one from before. -/
theorem get?_of_stays (hk : k.Admissible) (hstaged : k.StagedByRecording) (h : s.AtRest made)
    (hlive : ((k.run.on s).2.arena.find? a).isSome) :
    (k.run.on s).2.contents.get? a
      = (LogEntry.given? a (k, (k.run.on s).1)).or (s.contents.get? a) := by
  cases k with
  | addNode type access =>
    rw [run, contents_of_creates (h.sound.creates_addNode type hk)]
    rfl
  | addLink type access =>
    rw [run, contents_of_creates (h.sound.creates_addLink type hk)]
    rfl
  | connect type source target access =>
    rw [run, contents_of_creates (h.sound.creates_connect type source target hk)]
    rfl
  | erase x =>
    rw [run, Step.on_map] at hlive ⊢
    cases hx : s.arena.find? x with
    | none =>
      obtain ⟨f, hrun⟩ := Store.erase_dead hx
      rw [hrun]
      rfl
    | some e =>
      obtain ⟨order, s', hrun, -, hless, -⟩ := h.erase (Option.isSome_of_eq_some hx)
      rw [hrun] at hlive ⊢
      have hstay := (hless.arena.isSome_find?.1 hlive).1
      show s'.contents.get? a = s.contents.get? a
      rw [hless.contents, if_neg hstay]
  | narrow x type =>
    rw [run, Step.on_map, Store.narrow, Step.on_bind, Step.on_ask]
    cases s.narrowed x type <;> rfl
  | setAccess x access =>
    rw [run, Step.on_map]
    rfl
  | setContent x bytes =>
    rw [run, Step.on_map, Store.setContent, Step.on_bind, Step.on_ask]
    cases s.requireLink x with
    | error f => rfl
    | ok u =>
      show (s.contents.set x bytes).get? a = (if a = x then some bytes else none).or _
      rw [Contents.get?_set]
      by_cases hax : a = x
      · rw [if_pos hax.symm, if_pos hax]
        rfl
      · rw [if_neg (Ne.symm hax), if_neg hax]
        rfl
  | commit x =>
    rw [run, Step.on_map, Step.on_within]
    rcases Transaction.commit_done_or_refused h.sound.tidy hstaged.distinct with
      ⟨-, -, hrun⟩ | ⟨f, x', hrun⟩
    · rw [hrun]
      exact Store.get?_committed hstaged.distinct
    · rw [hrun]
      rfl

end Action

end SemanticNet
