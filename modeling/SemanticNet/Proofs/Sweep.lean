import Mathlib.Algebra.GroupWithZero.Nat
import Mathlib.Data.List.Perm.Subperm
import SemanticNet.Proofs.Editing
import SemanticNet.Store.Erase

/-!
# Sweeps

A sweep from an element marks the elements that it lists, and fails only where the rings of an
element do (`sweep_cases`). In a wired arena it finds all that hangs on the element: the element
itself, the connectors that touch it, those that touch these, and so on (`Arena.Hanging`). It puts
each of them once into an order that ends with the element (`sweep_spec`). In that order a connector
comes before its ends, except for an end that hangs on the other one (`Arena.Spans`).
-/

namespace SemanticNet.Arena

open scoped List

variable {t t' t'' : Arena} {a b c x y : Address} {as ms filed cs made : List Address}
  {errands : List Errand} {e : Element}

/-- What goes with `x`: the least set that has `x` in it and every connector that touches a member
of it. -/
inductive Hanging (t : Arena) (x : Address) : Address → Prop where
  | self : t.Hanging x x
  | touching {c y : Address} (hy : t.Hanging x y) (hc : t.Touches c y) : t.Hanging x c

/-- A set with `x` in it that every connector on a member belongs to has all that hangs on `x`. -/
theorem Hanging.closed {S : Address → Prop} (h : t.Hanging x y) (hx : S x)
    (hS : ∀ a, S a → ∀ c, t.Touches c a → S c) : S y := by
  induction h with
  | self => exact hx
  | touching _ hc ih => exact hS _ ih _ hc

/-- The connector `c` on `y` has another end, from which a sweep from `x` gets to `y` as well. -/
def Spans (t : Arena) (x c y : Address) : Prop :=
  ∃ z, z ≠ y ∧ t.Hanging x z ∧ t.Hanging z y ∧ t.Touches c z

/-- What hangs on an element was made after it. -/
theorem Hanging.newer (h : t.Hanging x y) (hw : t.Wired made) : y = x ∨ Newer made y x := by
  induction h with
  | self => exact .inl rfl
  | touching _ hc ih =>
    have hnewer := (hw.ends _ _ hc).2
    rcases ih with rfl | ih
    · exact .inr hnewer
    · exact .inr (Nat.lt_trans hnewer ih)

/-- An element has no connector that hangs on it as an end. -/
theorem Hanging.not_touches (h : t.Hanging c y) (hw : t.Wired made) : ¬t.Touches c y := by
  intro hc
  have hnewer : Newer made c y := (hw.ends c y hc).2
  rcases h.newer hw with rfl | h
  · exact Nat.lt_irrefl _ hnewer
  · exact Nat.lt_asymm hnewer h

/-- The connectors on an element are found on its rings. -/
theorem Wired.incident_ok (h : t.Wired made) (hx : (t.find? x).isSome) :
    ∃ cs, t.incident x = .ok cs ∧ ∀ c, c ∈ cs ↔ t.Touches c x := by
  obtain ⟨os, hos, hout⟩ := h.ring x .outgoing hx
  obtain ⟨is, his, hin⟩ := h.ring x .incoming hx
  refine ⟨os ++ is, ?_, fun c => ?_⟩
  · rw [incident, hos.members_eq, his.members_eq]
    rfl
  · rw [List.mem_append, hout, hin, touches_iff]
    constructor
    · intro hor
      rcases hor with h | h
      · exact ⟨.outgoing, h⟩
      · exact ⟨.incoming, h⟩
    · intro hex
      obtain ⟨d, h⟩ := hex
      cases d with
      | outgoing => exact .inl h
      | incoming => exact .inr h

/-! ## Marks -/

/-- In `t'` the elements among `ms` are marked, and nothing else is different. -/
def Marked (t t' : Arena) (ms : List Address) : Prop :=
  ∀ b, t'.find? b = (t.find? b).map fun e => if b ∈ ms then { e with erasing := true } else e

theorem marked_nil (t : Arena) : t.Marked t [] := by
  intro b
  simp

theorem Marked.isSome_find? (h : t.Marked t' ms) : (t'.find? b).isSome = (t.find? b).isSome := by
  rw [h, Option.isSome_map]

theorem Marked.threads (h : t.Marked t' ms) :
    (t'.find? b).map Element.threads = (t.find? b).map Element.threads := by
  rw [h, Option.map_map]
  exact congrArg (Option.map · (t.find? b)) (funext fun e => by
    rw [Function.comp]
    split <;> rfl)

theorem Marked.sameRings (h : t.Marked t' ms) : t.SameRings t' where
  ring a d := by
    have hring : ∀ s : Arena, (s.find? a).map (·.ring d)
        = ((s.find? a).map Element.threads).map (·.ring d) := fun s => by
      rw [Option.map_map]
      exact congrArg (Option.map · (s.find? a)) (funext fun e => Element.ring_threads.symm)
    rw [hring, hring, h.threads]
  link? c x d := by
    have hlink : ∀ s : Arena, (s.find? c).map (·.link? x d)
        = ((s.find? c).map Element.threads).map (·.link? x d) := fun s => by
      rw [Option.map_map]
      exact congrArg (Option.map · (s.find? c)) (funext fun e => Element.link?_threads.symm)
    rw [hlink, hlink, h.threads]

theorem Marked.touches (h : t.Marked t' ms) : t'.Touches c x ↔ t.Touches c x :=
  touches_of_places (map_places_of_threads h.threads)

theorem Marked.setErasing (h : t.Marked t' ms) : t.Marked (t'.setErasing a true) (a :: ms) := by
  intro b
  rw [Arena.setErasing, find?_update, h]
  by_cases hab : a = b
  · subst hab
    simp only [if_true, Option.map_map, List.mem_cons_self]
    refine congrArg (Option.map · (t.find? a)) (funext fun e => ?_)
    rw [Function.comp]
    split <;> rfl
  · simp [hab, Ne.symm hab]

/-- Of the elements `as`, those that are live and not among `ms` are marked as well: they are
`news`. -/
structure MarksNew (t t'' : Arena) (as ms news : List Address) : Prop where
  marked : t.Marked t'' (news ++ ms)
  nodup : ms.Nodup → (news ++ ms).Nodup
  new : ∀ a ∈ news, a ∈ as ∧ (t.find? a).isSome
  all : ∀ a ∈ as, (t.find? a).isSome → a ∈ news ++ ms

/-- Of a list of elements, those that are live and were not marked yet are marked. -/
theorem markNew_spec (h : t.Marked t' ms) (hcalm : ∀ a e, t.find? a = some e → e.erasing = false)
    (as fresh : List Address) :
    ∃ news t'', t'.markNew as fresh = (news ++ fresh, t'') ∧ t.MarksNew t'' as ms news := by
  induction as generalizing t' ms fresh with
  | nil => exact ⟨[], t', rfl, h, id, by simp, by simp⟩
  | cons a as ih =>
    have hfind := h a
    by_cases hskip : (t.find? a).isSome → a ∈ ms
    · -- `a` is not live, or it is marked already
      have hstep : t'.markNew (a :: as) fresh = t'.markNew as fresh := by
        rw [markNew, hfind]
        cases he : t.find? a with
        | none => rfl
        | some e => simp [hskip (Option.isSome_of_eq_some he)]
      obtain ⟨news, t'', hrun, hmarks⟩ := ih h fresh
      refine ⟨news, t'', hstep.trans hrun, hmarks.marked, hmarks.nodup, fun b hb => ?_,
        fun b hb hlive => ?_⟩
      · exact ⟨List.mem_cons_of_mem a (hmarks.new b hb).1, (hmarks.new b hb).2⟩
      · rcases List.mem_cons.1 hb with rfl | hb
        · exact List.mem_append_right news (hskip hlive)
        · exact hmarks.all b hb hlive
    · -- `a` is new, and what comes later in the list finds it marked
      obtain ⟨hlive, ha⟩ := Classical.not_imp.1 hskip
      obtain ⟨e, he⟩ := Option.isSome_iff_exists.1 hlive
      rw [he, Option.map_some, if_neg ha] at hfind
      obtain ⟨news, t'', hrun, hmarks⟩ := ih (h.setErasing (a := a)) (a :: fresh)
      have hsplit : ∀ bs, (news ++ [a]) ++ bs = news ++ a :: bs := fun bs => by simp
      refine ⟨news ++ [a], t'', ?_, ?_, fun hms => ?_, fun b hb => ?_, fun b hb hlive => ?_⟩
      · rw [markNew, hfind, hsplit]
        simp only [hcalm a e he, Bool.false_eq_true, if_false]
        exact hrun
      · rw [hsplit]
        exact hmarks.marked
      · rw [hsplit]
        exact hmarks.nodup (List.nodup_cons.2 ⟨ha, hms⟩)
      · rcases List.mem_append.1 hb with hb | hb
        · exact ⟨List.mem_cons_of_mem a (hmarks.new b hb).1, (hmarks.new b hb).2⟩
        · obtain rfl := List.mem_singleton.1 hb
          exact ⟨List.mem_cons_self, hlive⟩
      · rw [hsplit]
        rcases List.mem_cons.1 hb with rfl | hb
        · simp
        · exact hmarks.all b hb hlive

/-! ## The sweep -/

/-- The element that an errand is about. -/
def Errand.address : Errand → Address
  | .visit a | .file a => a

/-- The steps that an errand takes, apart from those of the errands that it leads to. -/
def Errand.work : Errand → Nat
  | .visit _ => 2
  | .file _ => 1

/-- What holds in the course of a sweep, whatever the rings are like. The elements filed so far and
those of the errands are the marked ones, each once. -/
structure Collecting (t t' : Arena) (ms filed : List Address) (errands : List Errand) : Prop where
  marked : t.Marked t' ms
  nodup : ms.Nodup
  perm : filed.reverse ++ errands.map Errand.address ~ ms
  live : ∀ a ∈ ms, (t.find? a).isSome

theorem Collecting.file (h : t.Collecting t' ms filed (.file a :: errands)) :
    t.Collecting t' ms (a :: filed) errands :=
  ⟨h.marked, h.nodup, by simpa [Errand.address] using h.perm, h.live⟩

/-- The errands of a visit are about the new elements and, as before, about the visited one. -/
theorem map_address_visit (news : List Address) (a : Address) (errands : List Errand) :
    (news.map Errand.visit ++ .file a :: errands).map Errand.address
      = news ++ a :: errands.map Errand.address := by
  simp [Errand.address, Function.comp_def]

theorem Collecting.visit {news : List Address}
    (h : t.Collecting t' ms filed (.visit a :: errands)) (hm : t.MarksNew t'' cs ms news) :
    t.Collecting t'' (news ++ ms) filed (news.map .visit ++ .file a :: errands) := by
  refine ⟨hm.marked, hm.nodup h.nodup, ?_, fun b hb => ?_⟩
  · -- the filing of `a` takes the place of its visit
    rw [map_address_visit]
    exact (List.perm_append_comm_assoc _ _ _).trans (h.perm.append_left news)
  · rcases List.mem_append.1 hb with hb | hb
    · exact (hm.new b hb).2
    · exact h.live b hb

/-- A sweep that has the steps for it comes to its end, or to an element whose rings are broken.
What filing and visiting an element keep, holds then. `n` bounds the number of elements. -/
theorem sweepFrom_cases {P : Arena → List Address → List Address → List Errand → Prop}
    {n fuel : Nat} (hcalm : ∀ a e, t.find? a = some e → e.erasing = false)
    (hn : ∀ as : List Address, as.Nodup → (∀ a ∈ as, (t.find? a).isSome) → as.length ≤ n)
    (hcollecting : ∀ {t' ms filed errands}, P t' ms filed errands →
      t.Collecting t' ms filed errands)
    (hfile : ∀ {t' ms filed a errands}, P t' ms filed (.file a :: errands) →
      P t' ms (a :: filed) errands)
    (hvisit : ∀ {t' t'' ms filed a errands cs news}, P t' ms filed (.visit a :: errands) →
      t.incident a = .ok cs → t.MarksNew t'' cs ms news →
      P t'' (news ++ ms) filed (news.map .visit ++ .file a :: errands))
    (h : P t' ms filed errands)
    (hfuel : (errands.map Errand.work).sum + 2 * (n - ms.length) ≤ fuel) :
    (∃ t'' ms' filed', P t'' ms' filed' [] ∧
      t'.sweepFrom ms filed fuel errands = ⟨.ok filed'.reverse, ms', t''⟩) ∨
    ∃ t'' ms' filed' a rest f, P t'' ms' filed' (.visit a :: rest) ∧ t.incident a = .error f ∧
      t'.sweepFrom ms filed fuel errands = ⟨.error f, ms', t''⟩ := by
  induction fuel generalizing t' ms filed errands with
  | zero =>
    cases errands with
    | nil => exact .inl ⟨t', ms, filed, h, rfl⟩
    | cons k errands => cases k <;> simp [Errand.work] at hfuel
  | succ fuel ih =>
    cases errands with
    | nil => exact .inl ⟨t', ms, filed, h, rfl⟩
    | cons k errands =>
      cases k with
      | file a =>
        rw [sweepFrom]
        apply ih (hfile h)
        simp only [List.map_cons, List.sum_cons, Errand.work] at hfuel
        omega
      | visit a =>
        have hmarked := (hcollecting h).marked
        have hincident : t'.incident a = t.incident a := hmarked.sameRings.incident
        cases hcs : t.incident a with
        | error f =>
          refine .inr ⟨t', ms, filed, a, errands, f, h, hcs, ?_⟩
          rw [sweepFrom, hincident, hcs]
        | ok cs =>
          obtain ⟨news, t₁, hrun, hm⟩ := markNew_spec hmarked hcalm cs []
          rw [List.append_nil] at hrun
          have hnext := hvisit h hcs hm
          have hstep : t'.sweepFrom ms filed (fuel + 1) (.visit a :: errands)
              = t₁.sweepFrom (news ++ ms) filed fuel (news.map .visit ++ .file a :: errands) := by
            rw [sweepFrom, hincident, hcs]
            simp only [hrun]
          rw [hstep]
          apply ih hnext
          -- each new connector is paid for by one element less that is not marked
          have hbound := hn _ (hcollecting hnext).nodup (hcollecting hnext).live
          simp only [List.map_cons, List.sum_cons, List.map_append, List.sum_append, List.map_map,
            Errand.work, Function.comp_def, List.map_const', List.sum_replicate_nat,
            List.length_append] at hfuel hbound ⊢
          omega

/-- Live elements stand in engaged slots. -/
theorem Addressable.length_le_engaged (h : t.Addressable) (hd : as.Nodup)
    (hlive : ∀ a ∈ as, (t.find? a).isSome) : as.length ≤ t.engaged := by
  have hsub : as ⊆ t.elements.map Prod.fst := by
    intro a ha
    obtain ⟨e, he⟩ := Option.isSome_iff_exists.1 (hlive a ha)
    exact List.mem_map.2 ⟨(a, e), h.mem_elements.2 he, rfl⟩
  have hle := (List.subperm_of_subset hd hsub).length_le
  rw [List.length_map] at hle
  exact hle.trans length_elements_le

/-- A sweep begins with steps enough to visit and file every element. -/
theorem sweep_fuel : ([Errand.visit x].map Errand.work).sum + 2 * (t.engaged - [x].length)
    ≤ 2 * t.engaged + 2 := by
  simp [Errand.work]
  omega

theorem collecting_start (hx : (t.find? x).isSome) :
    t.Collecting (t.setErasing x true) [x] [] [.visit x] :=
  ⟨(marked_nil t).setErasing, List.nodup_singleton x, by simp [Errand.address], fun a ha => by
    rwa [List.mem_singleton.1 ha]⟩

/-- A sweep marks the live elements that it lists, whatever the rings are like. It comes to an order
of these, or it fails where the rings of an element do. -/
theorem sweep_cases (ht : t.Addressable) (hcalm : ∀ a e, t.find? a = some e → e.erasing = false)
    (hx : (t.find? x).isSome) : t.Marked (t.sweep x).arena (t.sweep x).marked ∧
      ((∃ order, (t.sweep x).order = .ok order ∧ order ~ (t.sweep x).marked) ∨
        ∃ b f, (t.sweep x).order = .error f ∧ t.incident b = .error f) := by
  rcases sweepFrom_cases hcalm (fun as => ht.length_le_engaged) id Collecting.file
    (fun h _ hm => h.visit hm) (collecting_start hx) sweep_fuel with
    ⟨t'', ms, filed, h, hrun⟩ | ⟨t'', ms, filed, b, rest, f, h, hb, hrun⟩
  · rw [sweep, hrun]
    exact ⟨h.marked, .inl ⟨filed.reverse, rfl, by simpa using h.perm⟩⟩
  · rw [sweep, hrun]
    exact ⟨h.marked, .inr ⟨b, f, rfl, hb⟩⟩

/-! ## Sweeps of wired arenas -/

/-- An errand that waits for another one, about `a`: it is to file an element on which `a` hangs, or
to visit a connector that was found on such an element. -/
def Errand.Awaits (t : Arena) (x a : Address) : Errand → Prop
  | .file b => t.Hanging b a
  | .visit c => ∃ b, t.Hanging x b ∧ t.Hanging b a ∧ t.Touches c b

/-- What an errand waits for may be put off for a connector on it. -/
theorem Errand.Awaits.touching {k : Errand} (h : k.Awaits t x a) (hb : t.Touches b a) :
    k.Awaits t x b := by
  cases k with
  | file _ => exact Hanging.touching h hb
  | visit _ =>
    obtain ⟨z, hz, hza, hc⟩ := h
    exact ⟨z, hz, hza.touching hb, hc⟩

/-- What holds besides in the course of a sweep from `x` of a wired arena: the elements are in
order, and what is filed, or about to be, has the connectors on it marked. -/
structure Sweeping (t : Arena) (x : Address) (t' : Arena) (ms filed : List Address)
    (errands : List Errand) : Prop extends Collecting t t' ms filed errands where
  last : (filed.reverse ++ errands.map Errand.address).getLast? = some x
  hanging : ∀ a ∈ ms, t.Hanging x a
  closed : ∀ a, a ∈ filed ∨ Errand.file a ∈ errands → ∀ c, t.Touches c a → c ∈ ms
  ordered : (filed.reverse ++ errands.map Errand.address).Pairwise fun y c =>
    t.Touches c y → t.Spans x c y
  waiting : errands.Pairwise fun k k' => k'.Awaits t x k.address

/-- Filing an element leaves the order to come as it is. -/
theorem Sweeping.file (h : t.Sweeping x t' ms filed (.file a :: errands)) :
    t.Sweeping x t' ms (a :: filed) errands where
  toCollecting := h.toCollecting.file
  last := by simpa [Errand.address] using h.last
  hanging := h.hanging
  closed b hb := by
    apply h.closed b
    rcases hb with hb | hb
    · rcases List.mem_cons.1 hb with rfl | hb
      · exact .inr List.mem_cons_self
      · exact .inl hb
    · exact .inr (List.mem_cons_of_mem _ hb)
  ordered := by simpa [Errand.address] using h.ordered
  waiting := (List.pairwise_cons.1 h.waiting).2

/-- New connectors on an element come in front of it, and of what they touch besides only after what
that element hangs on. -/
theorem Sweeping.ordered_visit {news : List Address}
    (h : t.Sweeping x t' ms filed (.visit a :: errands)) (hw : t.Wired made)
    (hnews : ∀ b ∈ news, t.Touches b a ∧ b ∉ ms) :
    (filed.reverse ++ (news ++ a :: errands.map Errand.address)).Pairwise fun y c =>
      t.Touches c y → t.Spans x c y := by
  have hxa : t.Hanging x a := h.hanging a (h.perm.mem_iff.1 (by simp [Errand.address]))
  have hne : ∀ b ∈ news, ∀ z, t.Hanging z a → z ≠ b := by
    rintro b hb z hz rfl
    exact hz.not_touches hw (hnews z hb).1
  obtain ⟨hfiled, hrest, hcross⟩ := List.pairwise_append.1 h.ordered
  refine List.pairwise_append.2 ⟨hfiled, List.pairwise_append.2 ⟨?_, hrest, ?_⟩, ?_⟩
  · -- two new ones: both are on `a`
    refine List.pairwise_of_forall_mem_list fun y hy c hc _ => ?_
    exact ⟨a, hne y hy a .self, hxa, .touching .self (hnews y hy).1, (hnews c hc).1⟩
  · intro y hy c hc hcy
    have hay : t.Hanging a y := .touching .self (hnews y hy).1
    rcases List.mem_cons.1 hc with rfl | hc
    · exact absurd hcy (hay.not_touches hw)
    · -- an errand that is left waits for `a`, and so for `y`
      obtain ⟨k, hk, rfl⟩ := List.mem_map.1 hc
      have hawaits := (List.pairwise_cons.1 h.waiting).1 k hk
      cases k with
      | file c => exact absurd hcy ((hawaits.touching (hnews y hy).1).not_touches hw)
      | visit c =>
        obtain ⟨z, hxz, hza, hcz⟩ := hawaits
        exact ⟨z, hne y hy z hza, hxz, hza.touching (hnews y hy).1, hcz⟩
  · intro y hy c hc hcy
    rcases List.mem_append.1 hc with hc | hc
    · -- the connectors on what is filed are not new
      exact absurd (h.closed y (.inl (List.mem_reverse.1 hy)) c hcy) (hnews c hc).2
    · exact hcross y hy c hc hcy

/-- What was left to do waits for the new connectors, and they are all on one element. -/
theorem Sweeping.waiting_visit {news : List Address}
    (h : t.Sweeping x t' ms filed (.visit a :: errands)) (hnews : ∀ b ∈ news, t.Touches b a) :
    (news.map Errand.visit ++ .file a :: errands).Pairwise fun k k' =>
      k'.Awaits t x k.address := by
  have hxa : t.Hanging x a := h.hanging a (h.perm.mem_iff.1 (by simp [Errand.address]))
  obtain ⟨hfirst, hrest⟩ := List.pairwise_cons.1 h.waiting
  refine List.pairwise_append.2 ⟨?_, List.pairwise_cons.2 ⟨hfirst, hrest⟩, ?_⟩
  · refine List.pairwise_map.2 (List.pairwise_of_forall_mem_list fun b hb c hc => ?_)
    exact ⟨a, hxa, .touching .self (hnews b hb), hnews c hc⟩
  · intro k hk k' hk'
    obtain ⟨b, hb, rfl⟩ := List.mem_map.1 hk
    rcases List.mem_cons.1 hk' with rfl | hk'
    · exact .touching .self (hnews b hb)
    · exact (hfirst k' hk').touching (hnews b hb)

/-- Visiting an element puts the connectors on it that are new in front of it. -/
theorem Sweeping.visit {news : List Address} (h : t.Sweeping x t' ms filed (.visit a :: errands))
    (hw : t.Wired made) (hcs : ∀ c, c ∈ cs ↔ t.Touches c a) (hm : t.MarksNew t'' cs ms news) :
    t.Sweeping x t'' (news ++ ms) filed (news.map .visit ++ .file a :: errands) := by
  have ha : a ∈ ms := h.perm.mem_iff.1 (by simp [Errand.address])
  have htouch : ∀ b ∈ news, t.Touches b a := fun b hb => (hcs b).1 (hm.new b hb).1
  refine ⟨h.toCollecting.visit hm, ?_, fun b hb => ?_, fun b hb c hc => ?_, ?_,
    h.waiting_visit htouch⟩
  · have hlast := h.last
    rw [List.map_cons, Errand.address] at hlast
    rw [map_address_visit]
    simp only [List.getLast?_append, List.getLast?_cons] at hlast ⊢
    simpa using hlast
  · rcases List.mem_append.1 hb with hb | hb
    · exact .touching (h.hanging a ha) (htouch b hb)
    · exact h.hanging b hb
  · have hlive : (t.find? c).isSome := by
      obtain ⟨e, k, he, -⟩ := hc
      exact Option.isSome_of_eq_some he
    -- the connectors on `a` are marked now, those on the others were before
    by_cases hba : b = a
    · subst hba
      exact hm.all c ((hcs c).2 hc) hlive
    · refine List.mem_append_right news (h.closed b ?_ c hc)
      simpa [hba] using hb
  · rw [map_address_visit]
    refine h.ordered_visit hw fun b hb => ⟨htouch b hb, ?_⟩
    exact List.disjoint_of_nodup_append (hm.nodup h.nodup) hb

/-- A sweep from `x` that came to its end with an order. -/
structure Swept (t : Arena) (x : Address) (s : Sweep) (order : List Address) : Prop where
  order_eq : s.order = .ok order
  marked : t.Marked s.arena s.marked
  perm : order ~ s.marked
  nodup : order.Nodup
  last : order.getLast? = some x
  mem_iff : ∀ a, a ∈ order ↔ t.Hanging x a
  ordered : order.Pairwise fun y c => t.Touches c y → t.Spans x c y

/-- When no errand is left, everything that hangs on `x` is filed. -/
theorem Sweeping.done (h : t.Sweeping x t' ms filed []) :
    t.Swept x ⟨.ok filed.reverse, ms, t'⟩ filed.reverse := by
  have hperm : filed.reverse ~ ms := by simpa using h.perm
  have hlast : filed.reverse.getLast? = some x := by simpa using h.last
  refine ⟨rfl, h.marked, hperm, hperm.nodup_iff.2 h.nodup, hlast,
    fun a => ⟨fun ha => h.hanging a (hperm.mem_iff.1 ha), fun ha => ?_⟩, by simpa using h.ordered⟩
  refine ha.closed (List.mem_of_getLast? hlast) fun b hb c hc => ?_
  exact hperm.mem_iff.2 (h.closed b (.inl (List.mem_reverse.1 hb)) c hc)

theorem Tidy.length_le_engaged (h : t.Tidy) (hd : as.Nodup)
    (hlive : ∀ a ∈ as, (t.find? a).isSome) : as.length ≤ t.engaged :=
  h.addressable.length_le_engaged hd hlive

/-- A sweep from a live element finds all that hangs on it. -/
theorem sweep_spec (ht : t.Tidy) (hw : t.Wired made)
    (hcalm : ∀ a e, t.find? a = some e → e.erasing = false) (hx : (t.find? x).isSome) :
    ∃ order, t.Swept x (t.sweep x) order := by
  have hstart : t.Sweeping x (t.setErasing x true) [x] [] [.visit x] := by
    refine ⟨collecting_start hx, by simp [Errand.address], ?_, ?_, List.pairwise_singleton _ _,
      List.pairwise_singleton _ _⟩
    · intro a ha
      rw [List.mem_singleton.1 ha]
      exact .self
    · intro a ha
      simp at ha
  have hincident : ∀ {t' ms filed a errands}, t.Sweeping x t' ms filed (.visit a :: errands) →
      ∃ cs, t.incident a = .ok cs ∧ ∀ c, c ∈ cs ↔ t.Touches c a := fun {_ _ _ a _} h =>
    hw.incident_ok (h.live a (h.perm.mem_iff.1 (by simp [Errand.address])))
  have hvisit : ∀ {t' t'' ms filed a errands cs news},
      t.Sweeping x t' ms filed (.visit a :: errands) → t.incident a = .ok cs →
      t.MarksNew t'' cs ms news →
      t.Sweeping x t'' (news ++ ms) filed (news.map .visit ++ .file a :: errands) := by
    intro t' t'' ms filed a errands cs news h hcs hm
    obtain ⟨cs', hcs', hmem⟩ := hincident h
    obtain rfl := Except.ok.inj (hcs'.symm.trans hcs)
    exact h.visit hw hmem hm
  rcases sweepFrom_cases hcalm (fun as => ht.length_le_engaged) Sweeping.toCollecting Sweeping.file
    hvisit hstart sweep_fuel with ⟨t'', ms, filed, h, hrun⟩ | ⟨t'', ms, filed, a, rest, f, h, ha, -⟩
  · rw [sweep, hrun]
    exact ⟨_, h.done⟩
  · obtain ⟨cs, hcs, -⟩ := hincident h
    cases hcs.symm.trans ha

end SemanticNet.Arena
