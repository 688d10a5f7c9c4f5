import SemanticNet.Proofs.Calls

/-!
# The first call of a transaction

A call on a transaction that was just begun is checked apart from the same call on the store: what
waits for the commit is checked when it is staged. Both ways come to the same answer or the same
failure, unless the call narrows an element that the session may write but not read. Narrowing
such an element is not refused on the store for want of rights, and in a transaction it is, for the
type is read there as the session sees it (`Draft.Call.first_answer`). On the store the right to
write suffices, so a session may narrow an element at once that it can not narrow in a transaction
(`narrow_refused_in_transaction`).
-/

namespace SemanticNet

namespace Session

variable {c : Session} {s : Store} {a : Address}

/-- The element may be written but not read. -/
def WritesUnread (c : Session) (s : Store) (a : Address) : Prop :=
  c.MayWrite s a ∧ c.mayRead s a = false

/-- The type of an element that may be written is told to those who may read it too. -/
theorem MayWrite.typeOf_eq (h : c.MayWrite s a) :
    c.typeOf s a = if c.mayRead s a then s.typeOf a else .error .noReadRights := by
  obtain ⟨e, he, -⟩ := h
  rw [typeOf, requireRead, Store.accessOf_ok_iff.2 ⟨e, he, rfl⟩, mayRead, he, Option.any_some]
  show (if c.levels.mayRead e.access then Except.ok () else .error Failure.noReadRights)
    >>= _ = _
  cases c.levels.mayRead e.access <;> rfl

/-- Whatever is to be changed of an element that may be written is changed. -/
theorem MayWrite.on_alter (h : c.MayWrite s a) (f : Element → Element) :
    ((Store.onArena (Arena.alter a f)).on s).1 = .ok () := by
  obtain ⟨e, he, -⟩ := h
  rw [Store.onArena, Step.on_within, Arena.alter, Step.on_bind, Step.on_ask, Arena.fetch, he]
  rfl

end Session

namespace Draft.Call

variable {c : Session} {s : Store} {w : Work} {k : Call} {a : Address}

/-- The call narrows an element that the session may write but not read. -/
def NarrowsUnread (c : Session) (s : Store) : Call → Prop
  | narrow a _ => c.WritesUnread s a
  | _ => False

/-- Staging is no reason to fail in an open transaction. -/
theorem on_staging (hopen : w.1.isOpen = true) (f : Staging → Staging) :
    ((Work.onTransaction (Transaction.stage f)).on w).1 = .ok () := by
  rw [Work.on_onTransaction, Transaction.stage, Transaction.on_record hopen]

/-! ## One call at a time -/

theorem answer_creating {x : Step Store Address} (hopen : w.1.isOpen = true) :
    ((Answer.made <$> creating x).on w).1 = ((Answer.made <$> x).on w.2).1 := by
  rw [Step.on_map, Step.on_map, on_creating hopen]
  rcases x.on w.2 with ⟨f | a, t⟩ <;> rfl

theorem answer_erase (hopen : w.1.isOpen = true) (a : Address) :
    (((erase a).run c).on w).1 = (((erase a).direct c).on w.2).1 := by
  show ((Answer.erased <$> Draft.erase c a).on w).1 = ((Answer.erased <$> c.erase a).on w.2).1
  rw [Step.on_map, Step.on_map, on_erase hopen]
  rcases (c.erase a).on w.2 with ⟨f | order, t⟩ <;> rfl

theorem answer_setAccess (hopen : w.1.isOpen = true) (a : Address) (access : Access) :
    (((setAccess a access).run c).on w).1 = (((setAccess a access).direct c).on w.2).1 := by
  simp only [run, direct, Draft.setAccess, Session.setAccess, Step.on_map, Step.on_bind,
    Work.on_onStore, Step.on_ask]
  cases hwrite : c.requireWrite w.2 a with
  | error f => rfl
  | ok u =>
    have hmay := Session.requireWrite_iff.1 hwrite
    simp only [Step.on_get, on_staging hopen, Store.setAccess, hmay.on_alter]

theorem answer_setContent (hopen : w.1.isOpen = true) (a : Address) (bytes : Bytes) :
    (((setContent a bytes).run c).on w).1 = (((setContent a bytes).direct c).on w.2).1 := by
  simp only [run, direct, Draft.setContent, Session.setContent, Store.setContent, Step.on_map,
    Step.on_bind, Work.on_onStore, Step.on_ask]
  cases c.requireWrite w.2 a with
  | error f => rfl
  | ok u =>
    cases hlink : w.2.requireLink a with
    | error f => simp only [hlink]
    | ok u => simp only [hlink, on_staging hopen, Step.on_change]

/-- Narrowing in a transaction reads the type as the session sees it, with nothing staged yet. -/
theorem on_typeOf (hfresh : w.1.staged = {}) : Draft.typeOf c w a = c.typeOf w.2 a := by
  have hrevision : Draft.revisionOf w a = {} := by
    rw [Draft.revisionOf, hfresh]
    rfl
  rw [Draft.typeOf, hrevision]
  cases c.typeOf w.2 a <;> rfl

/-- Narrowing comes to the same when the session may read what it narrows. -/
theorem answer_narrow (hopen : w.1.isOpen = true) (hfresh : w.1.staged = {}) (type : ElementType)
    (hread : ¬c.WritesUnread w.2 a) :
    (((narrow a type).run c).on w).1 = (((narrow a type).direct c).on w.2).1 := by
  simp only [run, direct, Draft.narrow, Session.narrow, Store.narrow, Step.on_map, Step.on_bind,
    Work.on_onStore, Step.on_ask]
  cases hwrite : c.requireWrite w.2 a with
  | error f => rfl
  | ok u =>
    have hmay := Session.requireWrite_iff.1 hwrite
    have htold : c.mayRead w.2 a = true := by simpa [Session.WritesUnread, hmay] using hread
    obtain ⟨e, he, -⟩ := id hmay
    have hshown : Draft.typeOf c w a = .ok e.type := by
      rw [on_typeOf hfresh, hmay.typeOf_eq, if_pos htold, Store.typeOf_ok_iff.2 ⟨e, he, rfl⟩]
    cases hmerged : e.type.narrow? type with
    | none => simp only [hshown, hmerged, Store.narrowed_of_find? he, Step.on_throw]
    | some m =>
      simp only [hshown, hmerged, Store.narrowed_of_find? he, Step.on_bind, Step.on_get,
        on_staging hopen, hmay.on_alter]

/-- Narrowing is refused in a transaction when the session may not read the type. -/
theorem on_narrow_unread (hfresh : w.1.staged = {}) (type : ElementType)
    (h : c.WritesUnread w.2 a) : (((narrow a type).run c).on w).1 = .error .noReadRights := by
  have hwrite := Session.requireWrite_iff.2 h.1
  simp only [run, Draft.narrow, Step.on_map, Step.on_bind, Work.on_onStore, Step.on_ask,
    on_typeOf hfresh, hwrite, h.1.typeOf_eq, h.2, Bool.false_eq_true, if_false]
  rfl

/-- Outside of a transaction such an element is narrowed, or the types do not fit. -/
theorem direct_narrow_of_mayWrite (h : c.MayWrite s a) (type : ElementType) :
    (((narrow a type).direct c).on s).1 = .ok .done ∨
      (((narrow a type).direct c).on s).1 = .error (.invalidType .notNarrower) := by
  obtain ⟨e, he, -⟩ := id h
  have hwrite := Session.requireWrite_iff.2 h
  simp only [direct, Session.narrow, Store.narrow, Step.on_map, Step.on_bind, Step.on_ask, hwrite]
  cases hmerged : e.type.narrow? type with
  | none => exact .inr (by rw [Store.narrowed_of_find? he, hmerged]; rfl)
  | some m =>
    left
    simp only [Store.narrowed_of_find? he, hmerged, h.on_alter]
    rfl

/-- In a fresh transaction every other call has the answer that it has on the store. -/
theorem answer_fresh (hopen : w.1.isOpen = true) (hfresh : w.1.staged = {})
    (hread : ¬k.NarrowsUnread c w.2) : ((k.run c).on w).1 = ((k.direct c).on w.2).1 := by
  cases k with
  | addNode type | addLink type | connect type source target => exact answer_creating hopen
  | erase a => exact answer_erase hopen a
  | narrow a type => exact answer_narrow hopen hfresh type hread
  | setAccess a access => exact answer_setAccess hopen a access
  | setContent a bytes => exact answer_setContent hopen a bytes

/-- The first call of a transaction has the answer, or the failure, that the same call has on the
store, unless it narrows an element that may be written but not read. Then the transaction refuses
it for want of the right to read, and the store looks at the types only. -/
theorem first_answer (d : Desk) (c : Session) (k : Call) :
    (¬k.NarrowsUnread c d.store ∧
      (d.begin.2.run d.begin.1 (k.run c)).1 = ((Desk.onStore (k.direct c)).on d).1) ∨
    (k.NarrowsUnread c d.store ∧
      (d.begin.2.run d.begin.1 (k.run c)).1 = .error .noReadRights ∧
      (((Desk.onStore (k.direct c)).on d).1 = .ok .done ∨
        ((Desk.onStore (k.direct c)).on d).1 = .error (.invalidType .notNarrower))) := by
  by_cases hread : k.NarrowsUnread c d.store
  · right
    cases k with
    | narrow a type =>
      exact ⟨hread, on_narrow_unread (w := (d.begin.1, d.begin.2.store)) rfl type hread,
        direct_narrow_of_mayWrite hread.1 type⟩
    | _ => exact hread.elim
  · exact .inl ⟨hread, answer_fresh (w := (d.begin.1, d.begin.2.store)) rfl rfl hread⟩

end Draft.Call

/-! ## An element that is written but not read -/

/-- A node that every session may write and only the highest may read. -/
def veiledActions : List Action := [.addNode .const ⟨Access.maxLevel, 0⟩]

def veiledDesk : Desk := { store := (Action.runAll veiledActions (.ofSettings .small)).2 }

theorem reached_veiledDesk : ∃ made, Reached (· = .small) made veiledDesk.store := by
  have hadmissible : ∀ k ∈ veiledActions, k.Admissible := by
    simp [veiledActions, Action.Admissible, Access.InUse, Access.maxLevel]
  exact ⟨_, (@Reached.fresh (· = .small) _ rfl).runAll hadmissible⟩

/-- The lowest session may narrow the node at once, and not in a transaction. -/
theorem narrow_refused_in_transaction : ∃ (made : List Address) (d : Desk) (c : Session)
    (k : Draft.Call), Reached (· = .small) made d.store ∧ c.levels.InUse ∧ k.Admissible ∧
      ((Desk.onStore (k.direct c)).on d).1 = .ok .done ∧
      (d.begin.2.run d.begin.1 (k.run c)).1 = .error .noReadRights := by
  obtain ⟨made, h⟩ := reached_veiledDesk
  exact ⟨made, veiledDesk, ⟨.lowest⟩, .narrow ⟨1, 1⟩ .classNode, h, Access.inUse_lowest, trivial,
    by decide +kernel, by decide +kernel⟩

end SemanticNet
