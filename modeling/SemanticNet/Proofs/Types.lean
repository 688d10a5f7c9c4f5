import SemanticNet.ElementType.Narrowing

/-!
# The kind of a type

The kind decides whether a type is that of a connector or of a common edge, and narrowing a type of
known kind keeps its mould (`mould_of_narrow?`), from which the sort follows (`sort_of_mould`).
-/

namespace SemanticNet.ElementType

variable {t s m : ElementType}

theorem ext_bits (h : t.bits = s.bits) : t = s := by
  cases t
  cases s
  exact congrArg mk h

theorem and_def : t &&& s = ⟨t.bits &&& s.bits⟩ := rfl

theorem or_def : t ||| s = ⟨t.bits ||| s.bits⟩ := rfl

theorem isUnknown_iff : t.isUnknown = true ↔ t = unknown := by
  cases t
  simp [isUnknown, unknown]

/-- A type with bits of a known one is known. -/
theorem isUnknown_or (h : s.isUnknown = false) : (t ||| s).isUnknown = false := by
  rw [← Bool.not_eq_true, isUnknown_iff] at h ⊢
  intro hor
  exact h (ext_bits (UInt16.or_eq_zero_iff.1 (congrArg bits hor)).2)

theorem isUnknown_of_kind (h : t.kind.isUnknown = false) : t.isUnknown = false := by
  rw [← Bool.not_eq_true, isUnknown_iff] at h ⊢
  rintro rfl
  exact h rfl

theorem isUnknown_of_isConnectorKind (h : t.kind.isConnectorKind = true) :
    t.isUnknown = false := by
  rw [← Bool.not_eq_true, isUnknown_iff]
  rintro rfl
  exact absurd h (by decide)

/-- Marks that are part of the kind are read off the kind. -/
theorem hasAny_kind (h : kindBits &&& m = m) : t.kind.hasAny m = t.hasAny m := by
  have hm : t.kind &&& m = t &&& m := by
    rw [← h]
    simp only [kind, and_def, mk.injEq]
    rw [← UInt16.and_assoc, ← UInt16.and_assoc, UInt16.and_assoc t.bits, UInt16.and_self]
  rw [hasAny, hm, hasAny]

theorem isConnector_kind : t.kind.isConnector = t.isConnector := hasAny_kind rfl

theorem isCommonEdge_kind : t.kind.isCommonEdge = t.isCommonEdge := hasAny_kind rfl

/-- A mark that is set shows in the kind. -/
theorem kind_ne_of_hasAny (h : kindBits &&& m = m) (hm : t.hasAny m = true) :
    t.kind.isUnknown = false := by
  rw [← hasAny_kind h] at hm
  cases hk : t.kind.isUnknown with
  | false => rfl
  | true =>
    have hzero : unknown &&& m = unknown := ext_bits UInt16.zero_and
    rw [isUnknown_iff.1 hk, hasAny, hzero] at hm
    exact absurd hm (by decide)

theorem or_and_distrib : (t ||| s) &&& m = t &&& m ||| s &&& m := by
  refine ext_bits (UInt16.toBitVec_inj.1 ?_)
  simpa [and_def, or_def] using BitVec.and_or_distrib_right

theorem isConnectorKind_iff : t.isConnectorKind = true ↔
    t = commonEdge ∨ t = commonArc ∨ t = membershipArc := by
  simp [isConnectorKind, or_assoc]

/-- A kind that connects is that of a connector. -/
theorem isConnector_of_isConnectorKind (h : t.kind.isConnectorKind = true) :
    t.isConnector = true := by
  rw [← isConnector_kind]
  rcases isConnectorKind_iff.1 h with hk | hk | hk <;> rw [hk] <;> rfl

/-- Adding bits that are no marks of a group leaves the group as it is. -/
theorem hasAny_or (h : s &&& m = unknown) : (t ||| s).hasAny m = t.hasAny m := by
  have hm : (t ||| s) &&& m = t &&& m := by
    rw [or_and_distrib, h]
    exact ext_bits UInt16.or_zero
  rw [hasAny, hm, hasAny]

theorem hasAny_or_self (h : s &&& m ≠ unknown) : (t ||| s).hasAny m = true := by
  rw [hasAny, Bool.not_eq_true']
  cases hu : ((t ||| s) &&& m).isUnknown with
  | false => rfl
  | true =>
    rw [isUnknown_iff, or_and_distrib] at hu
    exact absurd (ext_bits (UInt16.or_eq_zero_iff.1 (congrArg bits hu)).2) h

/-! ## Narrowing -/

theorem narrow?_eq_some_iff : t.narrow? s = some m ↔
    m = s ||| t ∧ m.isLink = t.isLink ∧ t.narrowsTo m = true := by
  simp only [narrow?]
  split
  next h =>
    rw [Bool.and_eq_true, beq_iff_eq] at h
    rw [Option.some.injEq]
    constructor
    · rintro rfl
      exact ⟨rfl, h⟩
    · rintro ⟨rfl, -⟩
      rfl
  next h =>
    rw [Bool.and_eq_true, beq_iff_eq] at h
    simp only [reduceCtorEq, false_iff]
    rintro ⟨rfl, hm⟩
    exact h hm

/-- What narrowing leaves as it is: the kind, and whether it is a link. -/
def mould (t : ElementType) : ElementType × Bool := (t.kind, t.isLink)

/-- A type of known kind keeps its mould when it is narrowed. -/
theorem mould_of_narrow? (h : t.narrow? s = some m) (hk : t.kind.isUnknown = false) :
    m.mould = t.mould := by
  obtain ⟨-, hlink, hagree⟩ := narrow?_eq_some_iff.1 h
  simp only [narrowsTo, Bool.and_eq_true] at hagree
  have hkind := hagree.1.1
  have hk' : (t &&& kindBits).isUnknown = false := hk
  rw [agreesOn, hk', Bool.false_or, beq_iff_eq] at hkind
  exact Prod.ext hkind.symm hlink

theorem isLink_of_narrow? (h : t.narrow? s = some m) : m.isLink = t.isLink :=
  (narrow?_eq_some_iff.1 h).2.1

theorem kind_of_mould (h : m.mould = t.mould) : m.kind = t.kind := congrArg Prod.fst h

theorem isLink_of_mould (h : m.mould = t.mould) : m.isLink = t.isLink := congrArg Prod.snd h

theorem isConnector_of_mould (h : m.mould = t.mould) : m.isConnector = t.isConnector := by
  rw [← isConnector_kind, kind_of_mould h, isConnector_kind]

theorem isCommonEdge_of_mould (h : m.mould = t.mould) : m.isCommonEdge = t.isCommonEdge := by
  rw [← isCommonEdge_kind, kind_of_mould h, isCommonEdge_kind]

/-- Elements of one mould are counted as the same kind. -/
theorem sort_of_mould (h : m.mould = t.mould) : m.sort = t.sort := by
  rw [sort, isConnector_of_mould h, isLink_of_mould h, sort]

end SemanticNet.ElementType
