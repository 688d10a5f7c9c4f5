import SemanticNet.Session
import SemanticNet.Proofs.Holding

/-!
# What searches disclose

A session is told the content of a link when it may read the link, and a search for links leaves out
those that it may not read. The search for contents does not: it lists the contents of all links
(`Reached.searches_told`), so a session may be told a content although it may read no link that has
it (`hidden_content_told`). It is told nothing that it may not read just when each content with the
needle in it is that of some link that it may read.
-/

namespace SemanticNet

namespace Session

variable {c : Session} {s : Store} {made : List Address} {a : Address} {bytes needle : Bytes}

/-! ## Contents of links -/

/-- The content of a live element is told to those who may read it. -/
theorem contentOf_of_find? {e : Element} (he : s.arena.find? a = some e) :
    c.contentOf s a = if c.mayRead s a then s.contentOf a else .error .noReadRights := by
  rw [contentOf, requireRead, Store.accessOf_ok_iff.2 ⟨e, he, rfl⟩, mayRead, he, Option.any_some]
  show (if c.levels.mayRead e.access then Except.ok () else .error Failure.noReadRights)
    >>= _ = _
  cases c.levels.mayRead e.access <;> rfl

theorem contentOf_eq_ok_iff {content : Option Bytes} :
    c.contentOf s a = .ok content ↔ c.mayRead s a = true ∧ s.contentOf a = .ok content := by
  cases he : s.arena.find? a with
  | some e =>
    rw [contentOf_of_find? he]
    cases c.mayRead s a <;> simp
  | none =>
    have hmay : c.mayRead s a = false := by rw [mayRead, he, Option.any_none]
    have hdead : ∀ content, c.contentOf s a ≠ .ok content := by
      intro content h
      rw [contentOf, requireRead, Store.accessOf, Arena.fetch, he] at h
      cases h
    simp [hmay, hdead]

/-- A link has a content that the session is told or refused. -/
theorem contentOf_cases (h : s.contentOf a = .ok (some bytes)) :
    c.contentOf s a = .ok (some bytes) ∨ c.contentOf s a = .error .noReadRights := by
  obtain ⟨e, he, -⟩ := (Option.any_eq_true _ _).1 (Store.contentOf_ok_iff.1 h).1
  rw [contentOf_of_find? he]
  cases c.mayRead s a with
  | true => exact .inl h
  | false => exact .inr rfl

/-! ## Searches -/

/-- What is told of the contents with `needle` in them are contents of links that the session may
read. -/
def ToldReadable (c : Session) (s : Store) (needle : Bytes) : Prop :=
  ∀ bytes ∈ c.contentsContaining s needle,
    needle <:+: bytes ∧ ∃ a, c.contentOf s a = .ok (some bytes)

/-- What a session learns by searching for `needle`. The contents that are listed are in ascending
order, each once. They are those of the links that are found, and those of links that the session
may not read. -/
structure Told (c : Session) (s : Store) (needle : Bytes) : Prop where
  sorted : (c.contentsContaining s needle).Pairwise (· < ·)
  listed : ∀ bytes, bytes ∈ c.contentsContaining s needle ↔
    (∃ a ∈ c.findContaining s needle, c.contentOf s a = .ok (some bytes)) ∨
      needle <:+: bytes ∧
        ∃ a, s.contentOf a = .ok (some bytes) ∧ c.contentOf s a = .error .noReadRights
  found : ∀ a, a ∈ c.findContaining s needle ↔
    ∃ bytes ∈ c.contentsContaining s needle, c.contentOf s a = .ok (some bytes)
  readable : c.ToldReadable s needle ↔
    ∀ a bytes, s.contentOf a = .ok (some bytes) → needle <:+: bytes →
      ∃ b, c.contentOf s b = .ok (some bytes)

/-- In a store at rest what has a content is a link, so the content may be asked for. -/
theorem contentOf_eq_some_iff (h : s.AtRest made) :
    s.contentOf a = .ok (some bytes) ↔ s.contents.get? a = some bytes := by
  rw [Store.contentOf_ok_iff]
  exact ⟨fun hget => hget.2,
    fun hget => ⟨h.sound.contents a (Option.isSome_of_eq_some hget), hget⟩⟩

theorem mem_contentsContaining (h : s.AtRest made) : bytes ∈ c.contentsContaining s needle ↔
    (∃ a, s.contentOf a = .ok (some bytes)) ∧ needle <:+: bytes := by
  simp only [contentsContaining, Contents.mem_contentsContaining, contentOf_eq_some_iff h]

/-- A link is found when the session is told that its content has the needle in it. -/
theorem mem_findContaining (h : s.AtRest made) : a ∈ c.findContaining s needle ↔
    ∃ bytes, c.contentOf s a = .ok (some bytes) ∧ needle <:+: bytes := by
  simp only [findContaining, List.mem_filter, Contents.mem_findContaining, contentOf_eq_ok_iff,
    contentOf_eq_some_iff h]
  constructor
  · rintro ⟨⟨bytes, hget, hneedle⟩, hmay⟩
    exact ⟨bytes, ⟨hmay, hget⟩, hneedle⟩
  · rintro ⟨bytes, ⟨hmay, hget⟩, hneedle⟩
    exact ⟨⟨bytes, hget, hneedle⟩, hmay⟩

theorem mem_contentsContaining_of_contentOf (h : s.AtRest made)
    (hcontent : c.contentOf s a = .ok (some bytes)) (hneedle : needle <:+: bytes) :
    bytes ∈ c.contentsContaining s needle :=
  (mem_contentsContaining h).2 ⟨⟨a, (contentOf_eq_ok_iff.1 hcontent).2⟩, hneedle⟩

end Session

/-- What a session is told of a store that is reached. -/
theorem Reached.searches_told {allowed : Settings → Prop} {made : List Address} {s : Store}
    (h : Reached allowed made s) (c : Session) (needle : Bytes) : c.Told s needle := by
  have hrest := h.atRest
  refine ⟨s.contents.pairwise_contentsContaining needle, fun bytes => ?_, fun a => ?_, ?_, ?_⟩
  · constructor
    · intro hmem
      obtain ⟨⟨a, hcontent⟩, hneedle⟩ := (Session.mem_contentsContaining hrest).1 hmem
      rcases Session.contentOf_cases (c := c) hcontent with htold | hrefused
      · exact .inl ⟨a, (Session.mem_findContaining hrest).2 ⟨bytes, htold, hneedle⟩, htold⟩
      · exact .inr ⟨hneedle, a, hcontent, hrefused⟩
    · rintro (⟨a, hfound, htold⟩ | ⟨hneedle, a, hcontent, -⟩)
      · obtain ⟨bytes', htold', hneedle⟩ := (Session.mem_findContaining hrest).1 hfound
        obtain rfl : bytes = bytes' := by simpa using htold.symm.trans htold'
        exact Session.mem_contentsContaining_of_contentOf hrest htold hneedle
      · exact (Session.mem_contentsContaining hrest).2 ⟨⟨a, hcontent⟩, hneedle⟩
  · rw [Session.mem_findContaining hrest]
    constructor
    · rintro ⟨bytes, htold, hneedle⟩
      exact ⟨bytes, Session.mem_contentsContaining_of_contentOf hrest htold hneedle, htold⟩
    · rintro ⟨bytes, hmem, htold⟩
      exact ⟨bytes, htold, ((Session.mem_contentsContaining hrest).1 hmem).2⟩
  · intro hread a bytes hcontent hneedle
    exact (hread bytes ((Session.mem_contentsContaining hrest).2 ⟨⟨a, hcontent⟩, hneedle⟩)).2
  · intro hread bytes hmem
    obtain ⟨⟨a, hcontent⟩, hneedle⟩ := (Session.mem_contentsContaining hrest).1 hmem
    exact ⟨hneedle, hread a bytes hcontent hneedle⟩

/-! ## A content that is hidden -/

/-- Two links, of which the first may be read by the highest levels only. -/
def guardedActions : List Action :=
  [.addLink .const .highest, .setContent ⟨1, 1⟩ [1, 2], .addLink .const .lowest,
    .setContent ⟨1, 2⟩ [2, 3]]

def guardedStore : Store := (Action.runAll guardedActions (.ofSettings .small)).2

theorem reached_guardedStore : ∃ made, Reached (· = .small) made guardedStore := by
  have hadmissible : ∀ k ∈ guardedActions, k.Admissible := by
    simp [guardedActions, Action.Admissible, Access.inUse_lowest, Access.inUse_highest]
  exact ⟨_, (@Reached.fresh (· = .small) _ rfl).runAll hadmissible⟩

/-- The lowest session finds the second link, and is told the contents of both. -/
theorem Reached.searches_told_guardedStore : ∃ made, Reached (· = .small) made guardedStore ∧
    (⟨.lowest⟩ : Session).findContaining guardedStore [2] = [⟨1, 2⟩] ∧
    (⟨.lowest⟩ : Session).contentsContaining guardedStore [2] = [[1, 2], [2, 3]] ∧
    (⟨.lowest⟩ : Session).Told guardedStore [2] := by
  obtain ⟨made, h⟩ := reached_guardedStore
  exact ⟨made, h, by decide +kernel, by decide +kernel, h.searches_told ⟨.lowest⟩ [2]⟩

/-- A session is told the content of a link that it may not read, and no other link has it. -/
theorem hidden_content_told : ∃ (made : List Address) (s : Store) (c : Session) (needle : Bytes),
    Reached (· = .small) made s ∧ ¬c.ToldReadable s needle := by
  obtain ⟨made, h⟩ := reached_guardedStore
  refine ⟨made, guardedStore, ⟨.lowest⟩, [1], h, fun hread => ?_⟩
  have hlisted : [1, 2] ∈ (⟨.lowest⟩ : Session).contentsContaining guardedStore [1] := by
    decide +kernel
  obtain ⟨a, htold⟩ := (hread [1, 2] hlisted).2
  obtain ⟨hmay, hcontent⟩ := Session.contentOf_eq_ok_iff.1 htold
  -- only the first link has the content
  have honly : guardedStore.contents.findContaining [1] = [⟨1, 1⟩] := by decide +kernel
  have hentry : a ∈ guardedStore.contents.findContaining [1] :=
    Contents.mem_findContaining.2 ⟨_, (Store.contentOf_ok_iff.1 hcontent).2, [], [2], rfl⟩
  obtain rfl : a = ⟨1, 1⟩ := by simpa [honly] using hentry
  have hhidden : (⟨.lowest⟩ : Session).mayRead guardedStore ⟨1, 1⟩ = false := by decide +kernel
  exact Bool.false_ne_true (hhidden.symm.trans hmay)

end SemanticNet
