import SemanticNet.Proofs.Occupancy
import SemanticNet.Proofs.Regularity

/-!
# The free chains of a loaded store

Loading a dump does not follow the free chains, so a dump may be accepted whose chains run into live
slots or in a circle (`crookedDump`). What comes of nodes and links that are made then hangs on the
chains (`Dump.chainsGovern_of_decode`): if all are usable, whatever is done leaves them so, and no
creation runs into damage; if one is not, some creation does.
-/

namespace SemanticNet

namespace Arena

variable {t : Arena} {e : Element} {i : Nat}

/-- There may be no further segment, and no segment has a slot on its free chain or one that was
never engaged. -/
def Exhausted (t : Arena) : Prop :=
  t.segments.size = t.maxSegments ∧ ∀ (i : Nat) (s : Segment), t.segments[i]? = some s →
    s.freeHead = 0 ∧ s.slots.size = t.capacity

/-- A segment without room has neither a free chain nor a slot that was never engaged. -/
theorem Regular.full_of_roomAt (h : t.Regular) {s : Segment} (hs : t.segments[i]? = some s)
    (hroom : t.roomAt i = false) : s.freeHead = 0 ∧ s.slots.size = t.capacity := by
  have hle := (h.segment i s hs).size_le
  have hfull : s.freeHead = 0 ∧ t.capacity ≤ s.slots.size := by
    simpa [roomAt, hs, Segment.hasRoom] using hroom
  exact ⟨hfull.1, by omega⟩

/-- One segment may be changed to another one with a usable chain. -/
theorem Usable.modify (h : t.Usable) (i hint : Nat) {g : Segment → Segment}
    (hg : ∀ s, t.segments[i]? = some s → (g s).Usable) :
    Usable { t with segments := t.segments.modify i g, hint } := by
  intro j s hs
  have hs : (t.segments.modify i g)[j]? = some s := hs
  rw [Array.getElem?_modify] at hs
  split at hs
  next hij =>
    subst hij
    obtain ⟨s', hs', rfl⟩ := Option.map_eq_some_iff.1 hs
    exact hg s' hs'
  next => exact h j s hs

theorem Usable.update (h : t.Usable) (a : Address) (f : Element → Element) :
    (t.update a f).Usable := by
  unfold Arena.update
  split
  · exact h
  · exact h.modify _ t.hint fun s hs => (h _ s hs).modify _ f

theorem usable_occupy_iff (hc : t.capacity ≤ 65535) {s : Segment} {v : Segment.Vacancy}
    (hs : t.segments[i]? = some s) (hv : s.vacancy? t.capacity = .ok (some v)) (e : Element) :
    (t.occupy e (i, v)).Usable ↔ t.Usable := by
  have hsegment := Segment.usable_occupy_iff hc hv e
  constructor
  · intro h j g hg
    by_cases hij : i = j
    · subst hij
      obtain rfl : s = g := Option.some.inj (hs.symm.trans hg)
      refine hsegment.1 (h i _ ?_)
      simp [Arena.occupy, Array.getElem?_modify, hs]
    · refine h j g ?_
      simp [Arena.occupy, Array.getElem?_modify, hij, hg]
  · intro h
    refine h.modify i i fun s' hs' => ?_
    obtain rfl : s = s' := Option.some.inj (hs.symm.trans hs')
    exact hsegment.2 (h i s hs)

theorem usable_grow_iff : t.grow.Usable ↔ t.Usable := by
  have hget : ∀ j, t.grow.segments[j]? = if j = t.segments.size then some {} else t.segments[j]? :=
    fun j => Array.getElem?_push
  constructor
  · intro h j g hg
    refine h j g ?_
    rw [hget, if_neg, hg]
    have := (Array.getElem?_eq_some_iff.1 hg).1
    omega
  · intro h j g hg
    rw [hget] at hg
    split at hg
    · cases hg
      exact Segment.usable_empty
    · exact h j g hg

theorem Usable.allocate (h : t.Usable) (hc : t.capacity ≤ 65535) (e : Element) :
    ((Arena.allocate e).on t).2.capacity = t.capacity ∧ ((Arena.allocate e).on t).2.Usable := by
  rcases allocate_cases hc e with ⟨i, s, v, hs, hv, hrun⟩ | ⟨-, -, hrun⟩ | ⟨-, -, hrun⟩ |
    ⟨hnot, -⟩
  · rw [hrun]
    exact ⟨rfl, (usable_occupy_iff hc hs hv e).2 h⟩
  · rw [hrun]
    refine ⟨rfl, (usable_grow_iff.2 h).modify _ _ fun s hs => ?_⟩
    obtain rfl : {} = s := by simpa [Arena.grow] using hs
    exact ⟨[], rfl, List.nodup_nil⟩
  · rw [hrun]
    exact ⟨rfl, h⟩
  · exact absurd h hnot

theorem Usable.free (h : t.Usable) (a : Address) :
    ((Arena.free a).on t).2.capacity = t.capacity ∧ ((Arena.free a).on t).2.Usable := by
  simp only [Arena.free, Step.on_bind, Step.on_get]
  split
  next hlive =>
    obtain ⟨e, he⟩ := isLive_iff.1 hlive
    obtain ⟨s, hs, hslot⟩ := exists_slot?_of_find? he
    refine ⟨rfl, h.modify _ _ fun s' hs' => ?_⟩
    obtain rfl : s = s' := Option.some.inj (hs.symm.trans hs')
    exact (h _ s hs).free hslot
  next => exact ⟨rfl, h⟩

/-- Whatever is done leaves usable chains usable. -/
theorem lockstep_usable :
    Lockstep fun t t' => t' = t ∧ t.capacity ≤ 65535 ∧ t.Usable where
  toParallel := by
    refine parallel_of_update fun t a f h => ⟨?_, h.2.update a f⟩
    unfold Arena.update
    split <;> exact h.1
  allocate e := Step.respects_iff_keeps.2 fun t h => by
    obtain ⟨hcapacity, husable⟩ := h.2.allocate h.1 e
    exact ⟨hcapacity ▸ h.1, husable⟩
  free a := Step.respects_iff_keeps.2 fun t h => by
    obtain ⟨hcapacity, husable⟩ := h.2.free a
    exact ⟨hcapacity ▸ h.1, husable⟩

/-- In `t'` there is a new element at `a`, and the chains are usable if they were before, and only
then. -/
structure Placed (t t' : Arena) (a : Address) (e : Element) : Prop where
  fresh : t.find? a = none
  find? : ∀ b, t'.find? b = if b = a then some e else t.find? b
  usable_iff : t'.Usable ↔ t.Usable

theorem placed_of_occupy (hi : i < 65535) (hc : t.capacity ≤ 65535) {s : Segment}
    {v : Segment.Vacancy} (hs : t.segments[i]? = some s)
    (hv : s.vacancy? t.capacity = .ok (some v)) (e : Element) :
    t.Placed (t.occupy e (i, v)) (addressAt i v.offset) e := by
  obtain ⟨hfresh, hslot⟩ := slot?_occupy hi hc hs hv e
  refine ⟨hfresh, fun b => ?_, usable_occupy_iff hc hs hv e⟩
  rw [Arena.find?, hslot]
  split <;> rfl

/-- In a regular arena an element is placed, or there is no room for it, or a free chain is damaged.
-/
theorem Regular.allocate_cases (h : t.Regular) (e : Element) :
    (∃ a t', (Arena.allocate e).on t = (.ok a, t') ∧ t.Placed t' a e) ∨
    ((Arena.allocate e).on t = (.error (.fullMemory t.maxSegments), t) ∧ t.Exhausted ∧ t.Usable) ∨
    ((Arena.allocate e).on t = (.error (.corrupt .liveOnFreeChain), t) ∧ ¬t.Usable) := by
  have hsize := h.size_le
  have hmax := h.maxSegments_le
  rcases Arena.allocate_cases h.capacity_le e with ⟨i, s, v, hs, hv, hrun⟩ | ⟨-, hlt, hrun⟩ |
    ⟨hno, hge, hrun⟩ | ⟨hnot, hrun⟩
  · have hi := (Array.getElem?_eq_some_iff.1 hs).1
    exact .inl ⟨_, _, hrun, placed_of_occupy (by omega) h.capacity_le hs hv e⟩
  · obtain ⟨hs, hv⟩ := segment?_grow h.capacity_pos
    have hplaced := placed_of_occupy (t := t.grow) (by omega) h.capacity_le hs hv e
    refine .inl ⟨_, _, hrun, ?_, fun b => ?_, hplaced.usable_iff.trans usable_grow_iff⟩
    · rw [find?, ← slot?_grow]
      exact hplaced.fresh
    · rw [hplaced.find? b, find?, find?, slot?_grow]
      rfl
  · have hfull := fun i s hs => h.full_of_roomAt (i := i) (s := s) hs (hno i)
    refine .inr (.inl ⟨hrun, ⟨by omega, hfull⟩, fun i s hs => ⟨[], ?_, List.nodup_nil⟩⟩)
    exact (hfull i s hs).1
  · exact .inr (.inr ⟨hrun, hnot⟩)

end Arena

/-! ## Creations -/

/-- Whether an operation makes a node or a link. -/
def Action.IsPlacing : Action → Prop
  | addNode _ _ | addLink _ _ => True
  | connect _ _ _ _ | erase _ | narrow _ _ | setAccess _ _ | setContent _ _ | commit _ => False

namespace Store

variable {s : Store} {k : Action}

/-- What an insertion into a regular store may come to. -/
inductive InsertOutcome (s : Store) : Except Failure Answer × Store → Prop where
  | placed {a : Address} {e : Element} {s' : Store} (h : s.arena.Placed s'.arena a e) :
      InsertOutcome s (.ok (.made a), s')
  | full {s' : Store} (hsame : s'.arena = s.arena) (hfull : s.arena.Exhausted)
      (husable : s.arena.Usable) : InsertOutcome s (.error (.fullMemory s.arena.maxSegments), s')
  | damaged {s' : Store} (hsame : s'.arena = s.arena) (hnot : ¬s.arena.Usable) :
      InsertOutcome s (.error (.corrupt .liveOnFreeChain), s')

theorem Regular.insert_outcome (h : s.Regular) (e : Element) :
    s.InsertOutcome ((Answer.made <$> insert e).on s) := by
  obtain ⟨houtcome, harena, -⟩ := insert_on e s
  rw [Step.on_map, houtcome]
  rcases Arena.Regular.allocate_cases h e with ⟨a, t, hrun, hplaced⟩ | ⟨hrun, hfull, husable⟩ |
    ⟨hrun, hnot⟩
  · rw [hrun] at harena ⊢
    have harena : _ = t := harena
    rw [← harena] at hplaced
    exact .placed hplaced
  · rw [hrun] at harena ⊢
    exact .full harena hfull husable
  · rw [hrun] at harena ⊢
    exact .damaged harena hnot

/-- The creation of a node or a link is refused on account of its arguments, or it inserts an
element. -/
theorem Regular.placing_cases (h : s.Regular) (hk : k.IsPlacing) :
    (∃ f : Failure, f.OfArguments ∧ k.run.on s = (.error f, s)) ∨ s.InsertOutcome (k.run.on s) := by
  cases k with
  | addNode type access =>
    simp only [Action.run, Machinery.addNode]
    split
    · exact .inl ⟨.invalidType .nodeExpected, trivial, rfl⟩
    · exact .inr (h.insert_outcome _)
  | addLink type access =>
    simp only [Action.run, Machinery.addLink]
    split
    · exact .inl ⟨.invalidType .linkExpected, trivial, rfl⟩
    · exact .inr (h.insert_outcome _)
  | connect _ _ _ _ => exact hk.elim
  | erase _ => exact hk.elim
  | narrow _ _ => exact hk.elim
  | setAccess _ _ => exact hk.elim
  | setContent _ _ => exact hk.elim
  | commit _ => exact hk.elim

/-- While the chains are usable no creation runs into damage. -/
theorem Regular.intact_of_usable (h : s.Regular) (husable : s.arena.Usable) (hk : k.IsPlacing)
    (d : Damage) : (k.run.on s).1 ≠ .error (.corrupt d) := by
  rcases h.placing_cases hk with ⟨f, hf, hrun⟩ | hinsert
  · rw [hrun]
    rintro ⟨⟩
    exact hf
  · generalize k.run.on s = x at hinsert
    cases hinsert with
    | placed hplaced => simp
    | full => simp
    | damaged _ hnot => exact absurd husable hnot

/-- A creation finds no room only where there is none. -/
theorem Regular.exhausted_of_full (h : s.Regular) (hk : k.IsPlacing) {n : Nat}
    (hfull : (k.run.on s).1 = .error (.fullMemory n)) : s.arena.Exhausted := by
  rcases h.placing_cases hk with ⟨f, hf, hrun⟩ | hinsert
  · rw [hrun] at hfull
    obtain rfl := Except.error.inj hfull
    exact hf.elim
  · generalize k.run.on s = x at hinsert hfull
    cases hinsert with
    | placed hplaced => simp at hfull
    | full _ hexhausted => exact hexhausted
    | damaged => simp at hfull

/-- The nodes that are made while a chain is damaged do not repair it, and they are ever more. So
one of them fails. -/
theorem Regular.exists_damaged (h : s.Regular) (hnot : ¬s.arena.Usable) {cs : List Address}
    (hd : cs.Nodup) (hlive : ∀ c ∈ cs, (s.arena.find? c).isSome) {n : Nat}
    (hn : cs.length + n = 2 ^ 32) : .error (.corrupt .liveOnFreeChain) ∈
      (Action.runAll (List.replicate n (.addNode .const .lowest)) s).1 := by
  induction n generalizing s cs with
  | zero =>
    have hlt := Arena.length_lt_of_nodup hd fun c hc => by
      obtain ⟨e, he⟩ := Option.isSome_iff_exists.1 (hlive c hc)
      exact Arena.ne_empty_of_find? he
    omega
  | succ n ih =>
    have hregular := Action.keeps_regular (.addNode .const .lowest) s h
    have hinsert : s.InsertOutcome ((Action.addNode .const .lowest).run.on s) :=
      h.insert_outcome { type := .const ||| .node, access := .lowest }
    rw [List.replicate_succ, Action.runAll]
    generalize (Action.addNode .const .lowest).run.on s = x at hregular hinsert
    cases hinsert with
    | @placed a e s' hplaced =>
      have hlive' : ∀ c ∈ a :: cs, (s'.arena.find? c).isSome := by
        intro c hc
        rw [hplaced.find?]
        split
        · rfl
        next hne => exact hlive c (List.mem_of_ne_of_mem hne hc)
      have hfresh : a ∉ cs := by
        intro hmem
        have := hlive a hmem
        rw [hplaced.fresh] at this
        cases this
      refine List.mem_cons_of_mem _ (ih hregular (fun husable => ?_)
        (List.nodup_cons.2 ⟨hfresh, hd⟩) hlive' ?_)
      · exact hnot (hplaced.usable_iff.1 husable)
      · rw [List.length_cons]
        omega
    | full _ _ husable => exact absurd husable hnot
    | damaged => exact List.mem_cons_self

end Store

/-! ## Loaded stores -/

namespace Action

variable {P : Store → Prop} {s : Store}

/-- What every operation keeps is kept by operations that follow each other. -/
theorem keeps_runAll (hP : ∀ k : Action, Step.Keeps P k.run) (ks : List Action) (h : P s) :
    P (runAll ks s).2 := by
  induction ks generalizing s with
  | nil => exact h
  | cons k ks ih => exact ih (hP k s h)

theorem keeps_usable (k : Action) :
    Step.Keeps (fun s => s.arena.capacity ≤ 65535 ∧ s.arena.Usable) k.run :=
  fun s hs => (k.respects Arena.lockstep_usable s s ⟨rfl, hs⟩).2.2

end Action

/-- What hangs on the free chains of a store. If they are usable, then no node and no link that is
made runs into damage, whatever operations come before, and the store can be saved. If they are not,
then some node does, when only nodes are made. In any case there is room until all slots are taken.
-/
structure Store.ChainsGovern (s : Store) : Prop where
  intact : s.arena.Usable → ∀ (ks : List Action) (k : Action), k.IsPlacing →
    ∀ d, (k.run.on (Action.runAll ks s).2).1 ≠ .error (.corrupt d)
  damaged : ¬s.arena.Usable → ∃ n, .error (.corrupt .liveOnFreeChain) ∈
    (Action.runAll (List.replicate n (.addNode .const .lowest)) s).1
  full : ∀ (ks : List Action) (k : Action) (n : Nat), k.IsPlacing →
    (k.run.on (Action.runAll ks s).2).1 = .error (.fullMemory n) →
    (Action.runAll ks s).2.arena.Exhausted
  saved : s.arena.Usable → ∀ check settings, ∃ x,
    Dump.decode check settings (Dump.encode check s) = .ok x

namespace Dump

variable {check : Bytes → UInt32} {settings : Settings} {bytes : Bytes} {s : Store} {y : Summary}

/-- What is loaded can be written when its chains are usable. -/
theorem writable_of_decode (h : decode check settings bytes = .ok (s, y))
    (husable : s.arena.Usable) : s.Writable := by
  obtain ⟨hsize, hmax, hpos, hcap, hsegment⟩ := arena_of_decode h
  have hformed := wellFormed_of_decode h
  exact ⟨hsize.trans hmax, hpos, hcap, husable, fun i g hg => (hsegment i g hg).1.size_le,
    hformed.element, hformed.content⟩

/-- Whatever dump is accepted, what comes of the store that is loaded hangs on its free chains. -/
theorem chainsGovern_of_decode (h : decode check settings bytes = .ok (s, y)) :
    s.ChainsGovern where
  intact husable ks k hk d := by
    have hregular := Action.keeps_runAll Action.keeps_regular ks (regular_of_decode h)
    have hcap := (regular_of_decode h).capacity_le
    have hkept := Action.keeps_runAll Action.keeps_usable ks ⟨hcap, husable⟩
    exact hregular.intact_of_usable hkept.2 hk d
  damaged hnot := by
    refine ⟨2 ^ 32, (regular_of_decode h).exists_damaged hnot List.nodup_nil ?_ ?_⟩
    · simp
    · simp
  full ks k n hk hfull :=
    (Action.keeps_runAll Action.keeps_regular ks (regular_of_decode h)).exhausted_of_full hk hfull
  saved husable check' settings' := by
    have hwritable := writable_of_decode h husable
    obtain ⟨contents, -, hload⟩ := exists_decode_encode settings' check' hwritable
      fun a content hcontent => (contents_of_decode h a content hcontent).2
    exact ⟨_, hload⟩

end Dump

/-- A store of one node, with a slot that was freed before it. -/
def looseStore : Store :=
  (Action.runAll [.addNode .const .lowest, .addNode .const .lowest, .erase ⟨1, 1⟩]
    (.ofSettings .small)).2

theorem reached_looseStore : ∃ made, Reached (· = .small) made looseStore :=
  ⟨_, (@Reached.fresh (· = .small) _ rfl).runAll
    (by simp [Action.Admissible, Access.inUse_lowest])⟩

/-- The chain of the freed slot is loaded, and it is usable. -/
theorem Dump.chainsGovern_of_decode_looseStore :
    ∃ s y, decode Crc32.check .small (encode Crc32.check looseStore) = .ok (s, y) ∧
      s.arena.Usable ∧ s.ChainsGovern := by
  obtain ⟨made, hreached⟩ := reached_looseStore
  have hcontents : looseStore.contents.toList = [] := by decide +kernel
  obtain ⟨contents, -, hload⟩ := decode_encode .small Crc32.check hreached.atRest
    fun a bytes hget => by
      rw [← Contents.mem_toList, hcontents] at hget
      cases hget
  have hback : Reached (· = .small) made _ := .loaded Crc32.check rfl hreached hload
  exact ⟨_, _, hload, hback.atRest.sound.tidy.usable, chainsGovern_of_decode hload⟩

/-! ## A chain in a circle -/

/-- One segment of two slots, of which the first one is free and comes next on the free chain after
itself. -/
def crookedImage : SegmentImage :=
  { number := 1
    lastEngaged := 1
    freeHead := 1
    free := [(1, 1)]
    live := [] }

def crookedBody : Bytes :=
  Dump.signature ++ littleEndian 2 Dump.formatVersion ++ littleEndian 2 2 ++ littleEndian 2 1 ++
    crookedImage.toBytes ++ littleEndian 4 0

def crookedDump : Bytes := crookedBody ++ littleEndian 4 (Crc32.check crookedBody).toNat

/-- A chain that leads from its top to its top is not usable. -/
theorem Segment.not_usable_of_loop {s : Segment} (h : s.next? s.freeHead = some s.freeHead) :
    ¬s.Usable := by
  rintro ⟨os, hch, hd⟩
  have hne := ne_zero_of_next? h
  -- the top would be the first offset of the chain and the second one
  cases os with
  | nil => exact hne hch
  | cons a os =>
    obtain ⟨rfl, n, hn, hrest⟩ := hch
    obtain rfl := Option.some.inj (h.symm.trans hn)
    cases os with
    | nil => exact hne hrest
    | cons b os =>
      obtain ⟨rfl, -⟩ := hrest
      simp at hd

/-- What is loaded of the crooked dump. -/
def crookedStore : Store :=
  match (Dump.readBody .small).run' crookedBody with
  | .ok (s, _) => s
  | .error _ => .ofSettings .small

theorem decode_crookedDump : ∃ y, Dump.decode Crc32.check .small crookedDump
    = .ok (crookedStore, y) := by
  have hok : ((Dump.readBody .small).run' crookedBody).isOk = true := by decide +kernel
  rw [crookedDump, Dump.decode_append, crookedStore]
  revert hok
  cases (Dump.readBody .small).run' crookedBody with
  | error f => exact fun hok => absurd hok Bool.false_ne_true
  | ok x => exact fun _ => ⟨_, rfl⟩

/-- A dump is accepted although its free chain runs in a circle. The second node that is made fails,
with a slot left, and so does loading what is saved at once. -/
theorem accepted_with_crooked_chain :
    ∃ s y, Dump.decode Crc32.check .small crookedDump = .ok (s, y) ∧ ¬s.arena.Usable ∧
      (Action.runAll [.addNode .const .lowest, .addNode .const .lowest] s).1
        = [.ok (.made ⟨1, 1⟩), .error (.corrupt .liveOnFreeChain)] ∧
      Dump.decode Crc32.check .small (Dump.encode Crc32.check s)
        = .error (.corrupt .offsetTwice) := by
  obtain ⟨y, hload⟩ := decode_crookedDump
  refine ⟨crookedStore, y, hload, fun husable => ?_, by decide +kernel, ?_⟩
  · have hsegment : crookedStore.arena.segments[0]? = some ⟨#[.free 1], 1, 0⟩ := by decide +kernel
    exact Segment.not_usable_of_loop (by decide) (husable 0 _ hsegment)
  · rw [Dump.encode, Dump.decode_append]
    have hread : (Dump.readBody .small).run' (Dump.body crookedStore)
        = .error (.corrupt .offsetTwice) := by
      have hmap : ((Dump.readBody .small).run' (Dump.body crookedStore)).map (fun _ => ())
          = .error (.corrupt .offsetTwice) := by decide +kernel
      revert hmap
      cases (Dump.readBody .small).run' (Dump.body crookedStore) with
      | error f => exact fun hmap => congrArg Except.error (Except.error.inj hmap)
      | ok x => exact fun hmap => nomatch hmap
    rw [hread]
    rfl

end SemanticNet
