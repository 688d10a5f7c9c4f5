import SemanticNet.Proofs.Census
import SemanticNet.Proofs.GraphChange
import SemanticNet.Proofs.Types

/-!
# Sound stores

A store is sound when its arena is tidy and wired, its elements are of known kinds and have the
parts that their kinds call for, only live links have content, and its census is right
(`Store.Sound`). It stays sound when an element is added (`Sound.grown`), changed (`Sound.of_map`)
or taken away (`Sound.without`).
-/

namespace SemanticNet

open scoped List

/-- Apart from its rings, an element is as its kind requires. -/
structure Element.Proper (e : Element) : Prop where
  connection : e.connection.isSome = e.type.isConnector
  kind : e.type.kind.isUnknown = false
  flags : e.flags = 0
  access : e.access.InUse

theorem Element.Proper.of_bare {e e' : Element} (h : e.Proper) (hb : e'.bare = e.bare) :
    e'.Proper := by
  have hcon : e'.connection.isSome = e.connection.isSome := by
    simpa [bare] using congrArg (·.connection.isSome) hb
  have htype : e'.type = e.type := congrArg (·.type) hb
  have hflags : e'.flags = e.flags := congrArg (·.flags) hb
  have haccess : e'.access = e.access := congrArg (·.access) hb
  exact ⟨by rw [hcon, htype, h.connection], by rw [htype, h.kind], by rw [hflags, h.flags],
    haccess ▸ h.access⟩

/-- A change that neither rings nor the census take notice of. -/
structure Element.Resembles (e e' : Element) : Prop where
  threads : e'.threads = e.threads
  mould : e'.type.mould = e.type.mould
  proper : e'.Proper

namespace Arena

variable {t t' : Arena} {a b c : Address} {e e' : Element}

theorem find?_of_bare (h : t'.bare? a = t.bare? a) (he : t'.find? a = some e') :
    ∃ e, t.find? a = some e ∧ e'.bare = e.bare := by
  have hbare : t.bare? a = some e'.bare := by rw [← h, bare?, he, Option.map_some]
  obtain ⟨e, he, hb⟩ := bare?_eq_some.1 hbare
  exact ⟨e, he, hb.symm⟩

theorem kind?_eq_bare? : t.kind? a = (t.bare? a).map (·.type.sort) := by
  rw [kind?, bare?, Option.map_map]
  rfl

/-- The links among the live elements. -/
def isLinkAt (t : Arena) (a : Address) : Bool := (t.find? a).any (·.type.isLink)

theorem isLinkAt_of_bare (h : t'.bare? a = t.bare? a) : t'.isLinkAt a = t.isLinkAt a := by
  have hmap : ∀ s : Arena, s.isLinkAt a = (s.bare? a).any (·.type.isLink) := by
    intro s
    rw [isLinkAt, bare?, Option.any_map]
    rfl
  rw [hmap, hmap, h]

end Arena

namespace Store

variable {s s' : Store} {a b c : Address} {e : Element} {made : List Address}

/-- A store as its own steps leave it, with the record of what was made, newest first. -/
structure Sound (made : List Address) (s : Store) : Prop where
  tidy : s.arena.Tidy
  wired : s.arena.Wired made
  proper : ∀ a e, s.arena.find? a = some e → e.Proper
  contents : ∀ a, (s.contents.get? a).isSome → s.arena.isLinkAt a = true
  census : s.census = Census.tally (s.arena.kinds.map Prod.snd)

/-- No element is being erased. -/
def Calm (s : Store) : Prop := ∀ a e, s.arena.find? a = some e → e.erasing = false

theorem on_onArena {α : Type} (x : Step Arena α) (s : Store) :
    (onArena x).on s = ((x.on s.arena).1, { s with arena := (x.on s.arena).2 }) := rfl

theorem onArena_of_on {α : Type} {x : Step Arena α} {r : Except Failure α} {t : Arena}
    (h : x.on s.arena = (r, t)) : onArena x s = (r, { s with arena := t }) := by
  have hon := on_onArena x s
  rwa [h] at hon

theorem sound_ofSettings (c : Settings) : (ofSettings c).Sound [] := by
  have hnone : ∀ a, (ofSettings c).arena.find? a = none := fun a => by
    simp [ofSettings, Arena.ofLimits, Arena.find?, Arena.slot?]
  refine ⟨Arena.tidy_ofLimits _ _, ⟨?_, ?_, ?_, ?_⟩, ?_, ?_, rfl⟩
  · intro x d hx
    simp [hnone] at hx
  · intro x d cs hcs
    have := hcs.isSome_owner
    simp [hnone] at this
  · rintro c x ⟨e, k, he, -⟩
    simp [hnone] at he
  · intro x hx
    simp [hnone] at hx
  · intro a e he
    simp [hnone] at he
  · intro a ha
    have : (∅ : Std.ExtTreeMap Address Bytes)[a]?.isSome := ha
    simp at this

theorem calm_ofSettings (c : Settings) : (ofSettings c).Calm := by
  intro a e he
  simp [ofSettings, Arena.ofLimits, Arena.find?, Arena.slot?] at he

/-! ## A new element -/

/-- A sound store stays sound when a proper element is added in front of its rings. -/
theorem Sound.grown (h : s.Sound made) (htidy : s'.arena.Tidy) (hg : s.arena.Grown s'.arena c e)
    (hends : ∀ p ∈ e.places, (s.arena.find? p.1).isSome) (he : e.Proper)
    (hcontents : s'.contents = s.contents) (hcensus : s'.census = s.census.add e.type.sort) :
    s'.Sound (c :: made) := by
  have hother : ∀ {b}, b ≠ c → s'.arena.bare? b = s.arena.bare? b := fun hb => by
    rw [hg.bare, if_neg hb]
  refine ⟨htidy, h.wired.grown hg hends, fun b e' he' => ?_, fun b hb => ?_, ?_⟩
  · by_cases hbc : b = c
    · subst hbc
      obtain ⟨e'', he'', hbare⟩ := hg.find?_new
      rw [he'] at he''
      cases he''
      exact he.of_bare hbare
    · obtain ⟨e'', he'', hbare⟩ := Arena.find?_of_bare (hother hbc) he'
      exact (h.proper b e'' he'').of_bare hbare
  · have hlink := h.contents b (hcontents ▸ hb)
    have hbc : b ≠ c := by
      intro heq
      subst heq
      simp [Arena.isLinkAt, hg.fresh] at hlink
    rwa [Arena.isLinkAt_of_bare (hother hbc)]
  · -- the census counts the kinds from before, and one more
    have hkind : ∀ b, s'.arena.kind? b = if b = c then some e.type.sort else s.arena.kind? b := by
      intro b
      rw [Arena.kind?_eq_bare?, hg.bare]
      split
      · rfl
      · exact Arena.kind?_eq_bare?.symm
    have hnew : s.arena.kind? c = none := by rw [Arena.kind?, hg.fresh, Option.map_none]
    have hperm := (h.tidy.addressable.kinds_perm_cons htidy.addressable hnew hkind).map Prod.snd
    rw [hcensus, h.census, Census.tally_perm hperm]
    exact Census.tally_cons.symm

/-! ## Changed elements -/

/-- A sound store stays sound when elements change but neither their threads nor their moulds. -/
theorem Sound.of_map {t : Arena} {g : Address → Element → Element} (h : s.Sound made)
    (htidy : t.Tidy) (hfind : ∀ b, t.find? b = (s.arena.find? b).map (g b))
    (hg : ∀ b e, s.arena.find? b = some e → e.Resembles (g b e)) :
    ({ s with arena := t } : Store).Sound made := by
  -- what `g` does not change, the arena shows as before
  have hmap : ∀ {β : Type} (k : Element → β),
      (∀ b e, s.arena.find? b = some e → k (g b e) = k e) →
      ∀ b, (t.find? b).map k = (s.arena.find? b).map k := by
    intro β k hk b
    rw [hfind, Option.map_map]
    cases he : s.arena.find? b with
    | none => rfl
    | some e => simp [hk b e he]
  refine ⟨htidy, h.wired.of_threads (hmap _ fun b e he => (hg b e he).threads), fun b e' he' => ?_,
    fun b hb => ?_, ?_⟩
  · have hmem : (s.arena.find? b).map (g b) = some e' := (hfind b).symm.trans he'
    obtain ⟨e, he, rfl⟩ := Option.map_eq_some_iff.1 hmem
    exact (hg b e he).proper
  · have hany : ∀ t : Arena, t.isLinkAt b = ((t.find? b).map (·.type.isLink)).any id := by
      intro t
      rw [Arena.isLinkAt, Option.any_map]
      rfl
    show t.isLinkAt b = true
    rw [hany, hmap (·.type.isLink) fun b e he => ElementType.isLink_of_mould (hg b e he).mould,
      ← hany]
    exact h.contents b hb
  · have hkind := hmap (·.type.sort) fun b e he => ElementType.sort_of_mould (hg b e he).mould
    show s.census = _
    rw [h.census]
    exact (Census.tally_perm ((h.tidy.addressable.kinds_perm htidy.addressable hkind).map _)).symm

/-! ## An element that goes -/

/-- A sound store stays sound without an element on which there is no connector. -/
theorem Sound.without (h : s.Sound made) (htidy : s'.arena.Tidy)
    (hw : s.arena.Without s'.arena [a]) (he : s.arena.find? a = some e)
    (hfree : ∀ c, ¬s.arena.Touches c a)
    (hcontents : ∀ b, s'.contents.get? b = if b = a then none else s.contents.get? b)
    (hcensus : s'.census = s.census.remove e.type.sort) : s'.Sound made := by
  have hother : ∀ {b}, b ≠ a → s'.arena.bare? b = s.arena.bare? b := fun hb => by
    rw [hw.bare, if_neg (by simpa using hb)]
  have hgone : s'.arena.find? a = none := by
    rw [← Option.not_isSome_iff_eq_none, hw.isSome_find?]
    simp
  refine ⟨htidy, h.wired.without hw ?_, fun b e' he' => ?_, fun b hb => ?_, ?_⟩
  · intro b hb c hc
    rw [List.mem_singleton.1 hb] at hc
    exact absurd hc (hfree c)
  · have hba : b ≠ a := by
      intro heq
      subst heq
      simp [hgone] at he'
    obtain ⟨e'', he'', hbare⟩ := Arena.find?_of_bare (hother hba) he'
    exact (h.proper b e'' he'').of_bare hbare
  · rw [hcontents] at hb
    by_cases hba : b = a
    · simp [hba] at hb
    · rw [if_neg hba] at hb
      rw [Arena.isLinkAt_of_bare (hother hba)]
      exact h.contents b hb
  · -- the old store is the new one with `a` added, so the census is the sum taken back
    have hkind : ∀ b, s.arena.kind? b = if b = a then some e.type.sort else s'.arena.kind? b := by
      intro b
      by_cases hba : b = a
      · rw [if_pos hba, hba, Arena.kind?, he, Option.map_some]
      · rw [if_neg hba, Arena.kind?_eq_bare?, Arena.kind?_eq_bare?, hother hba]
    have hnew : s'.arena.kind? a = none := by rw [Arena.kind?, hgone, Option.map_none]
    have hperm := (htidy.addressable.kinds_perm_cons h.tidy.addressable hnew hkind).map Prod.snd
    rw [hcensus, h.census, Census.tally_perm hperm, List.map_cons, Census.tally_cons,
      Census.remove_add]

end Store

end SemanticNet
