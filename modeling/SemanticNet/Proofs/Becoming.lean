import SemanticNet.Proofs.Types

/-!
# What a type may become

Narrowing adds bits to a type, and narrowing what was narrowed comes to one narrowing, whatever the
types are (`narrowsTo_trans`). So `Becomes`, to stay as it is or to be narrowed once, is all that
any number of narrowings may do. A type of known kind keeps its kind on the way, and every group of
marks that it settles (`Becomes.refines`).
-/

namespace SemanticNet.ElementType

variable {t s u m g allowed : ElementType}

/-! ## Bits -/

theorem and_assoc : t &&& s &&& u = t &&& (s &&& u) := ext_bits (UInt16.and_assoc _ _ _)

theorem and_comm : t &&& s = s &&& t := ext_bits (UInt16.and_comm _ _)

theorem and_self : t &&& t = t := ext_bits UInt16.and_self

theorem unknown_and : unknown &&& t = unknown := ext_bits UInt16.zero_and

theorem and_unknown : t &&& unknown = unknown := ext_bits UInt16.and_zero

theorem or_assoc : t ||| s ||| u = t ||| (s ||| u) := ext_bits (UInt16.or_assoc _ _ _)

theorem or_comm : t ||| s = s ||| t := ext_bits (UInt16.or_comm _ _)

theorem or_self : t ||| t = t := ext_bits UInt16.or_self

theorem or_or_self : s ||| t ||| t = s ||| t := by rw [or_assoc, or_self]

theorem and_or_self : t &&& s ||| s = s := by
  refine ext_bits (UInt16.toBitVec_inj.1 ?_)
  show t.bits.toBitVec &&& s.bits.toBitVec ||| s.bits.toBitVec = s.bits.toBitVec
  ext i
  simp only [BitVec.getElem_and, BitVec.getElem_or]
  cases t.bits.toBitVec[i] <;> cases s.bits.toBitVec[i] <;> rfl

theorem and_or_distrib : t &&& (s ||| u) = t &&& s ||| t &&& u := by
  rw [and_comm, or_and_distrib, and_comm, and_comm (t := u)]

/-- What has absorbed the bits of a type has them. -/
theorem hasAll_of_or (h : u ||| t = u) : u.hasAll t = true := by
  have hbits : u.bits.toBitVec ||| t.bits.toBitVec = u.bits.toBitVec :=
    congrArg (·.bits.toBitVec) h
  refine beq_iff_eq.2 (ext_bits (UInt16.toBitVec_inj.1 ?_))
  show u.bits.toBitVec &&& t.bits.toBitVec = t.bits.toBitVec
  rw [← hbits]
  ext i
  simp only [BitVec.getElem_and, BitVec.getElem_or]
  cases u.bits.toBitVec[i] <;> cases t.bits.toBitVec[i] <;> rfl

theorem and_of_hasAll (h : u.hasAll t = true) : u &&& t = t := beq_iff_eq.1 h

/-- What a type lies within, its part lies within. -/
theorem and_of_sub (h : u.hasAll t = true) (hu : u &&& allowed = u) : t &&& allowed = t := by
  calc t &&& allowed = u &&& t &&& allowed := by rw [and_of_hasAll h]
    _ = t &&& (u &&& allowed) := by rw [← and_assoc, and_comm (t := t)]
    _ = t := by rw [hu, and_comm, and_of_hasAll h]

/-- A type within `allowed` is its part in `allowed`. -/
theorem and_of_within (h : u.within allowed = true) : u &&& allowed = u := by
  have hout : u.bits.toBitVec &&& ~~~allowed.bits.toBitVec = 0#16 :=
    congrArg (·.bits.toBitVec) (isUnknown_iff.1 h)
  refine ext_bits (UInt16.toBitVec_inj.1 ?_)
  show u.bits.toBitVec &&& allowed.bits.toBitVec = u.bits.toBitVec
  ext i hi
  have hbit := congrArg (·[i]) hout
  simp only [BitVec.getElem_and, BitVec.getElem_not, BitVec.getElem_zero] at hbit ⊢
  revert hbit
  cases u.bits.toBitVec[i] <;> cases allowed.bits.toBitVec[i] <;> simp

/-! ## Groups of bits -/

theorem agreesOn_iff : t.agreesOn s m = true ↔ t &&& m = unknown ∨ t &&& m = s &&& m := by
  rw [agreesOn, Bool.or_eq_true, isUnknown_iff, beq_iff_eq]

theorem agreesOn_self : t.agreesOn t m = true := agreesOn_iff.2 (.inr rfl)

theorem agreesOn_trans (h : t.agreesOn s m = true) (h' : s.agreesOn u m = true) :
    t.agreesOn u m = true := by
  rw [agreesOn_iff] at h h' ⊢
  rcases h with hopen | hsame
  · exact .inl hopen
  · rcases h' with hopen | hsame'
    · exact .inl (hsame.trans hopen)
    · exact .inr (hsame.trans hsame')

/-- Types without bits outside `allowed` agree on a group when they agree on one that covers what is
allowed of it. -/
theorem agreesOn_of_within (h : t.agreesOn u g = true) (ht : t &&& allowed = t)
    (hu : u &&& allowed = u) (hcover : g &&& (allowed &&& m) = allowed &&& m) :
    t.agreesOn u m = true := by
  have hpart : ∀ v : ElementType, v &&& allowed = v → v &&& m = v &&& g &&& (allowed &&& m) := by
    intro v hv
    rw [and_assoc, hcover, ← and_assoc, hv]
  rw [agreesOn_iff] at h ⊢
  rw [hpart t ht, hpart u hu]
  rcases h with hopen | hsame
  · rw [hopen, unknown_and]
    exact .inl rfl
  · rw [hsame]
    exact .inr rfl

/-- Types of one kind show the same marks of it. -/
theorem hasAny_of_kind (hk : s.kind = t.kind) (hm : kindBits &&& m = m) :
    s.hasAny m = t.hasAny m := by
  rw [← hasAny_kind hm, hk, hasAny_kind hm]

/-- Without a kind there are no marks of it. -/
theorem hasAny_of_unknown (hk : t.kind.isUnknown = true) (hm : kindBits &&& m = m) :
    t.hasAny m = false := by
  rw [← hasAny_kind hm, isUnknown_iff.1 hk, hasAny, unknown_and]
  rfl

theorem hasAny_eq_false_iff : t.hasAny m = false ↔ t &&& m = unknown := by
  rw [hasAny, Bool.not_eq_false', isUnknown_iff]

theorem kind_eq_or : t.kind = t &&& node ||| t &&& connectorBits := by
  rw [← and_or_distrib]
  rfl

/-- What is neither a node nor a connector has no kind. -/
theorem kind_eq_unknown (hn : t.isNode = false) (hc : t.isConnector = false) :
    t.kind = unknown := by
  rw [kind_eq_or, hasAny_eq_false_iff.1 hn, hasAny_eq_false_iff.1 hc, or_self]

/-- A link has the bit of a node. -/
theorem isNode_of_isLink (h : t.isLink = true) : t.isNode = true := by
  have hnode : t &&& node = node := by
    calc t &&& node = t &&& link &&& node := by
          rw [and_assoc]
          rfl
      _ = node := by
          rw [and_of_hasAll h]
          rfl
  rw [isNode, hasAny, hnode]
  rfl

theorem isLink_eq_false (h : t.isNode = false) : t.isLink = false := by
  rw [← Bool.not_eq_true] at h ⊢
  exact fun hlink => h (isNode_of_isLink hlink)

/-! ## Narrowing again -/

/-- A type that has a kind keeps it. -/
theorem kind_of_narrowsTo (h : t.narrowsTo s = true) (hk : t.kind.isUnknown = false) :
    s.kind = t.kind := by
  simp only [narrowsTo, Bool.and_eq_true] at h
  rcases agreesOn_iff.1 h.1.1 with hopen | hsame
  · rw [← Bool.not_eq_true, isUnknown_iff] at hk
    exact absurd hopen hk
  · exact hsame.symm

/-- Narrowing is transitive. -/
theorem narrowsTo_trans (h : t.narrowsTo s = true) (h' : s.narrowsTo u = true) :
    t.narrowsTo u = true := by
  have hkept := kind_of_narrowsTo h
  simp only [narrowsTo, Bool.and_eq_true] at h h' ⊢
  obtain ⟨⟨hkind, hconst⟩, hrest⟩ := h
  obtain ⟨⟨hkind', hconst'⟩, hrest'⟩ := h'
  refine ⟨⟨agreesOn_trans hkind hkind', agreesOn_trans hconst hconst'⟩, ?_⟩
  cases hk : t.kind.isUnknown with
  | true =>
    -- nothing else is asked of a type without a kind
    have hnode : t.isNode = false := hasAny_of_unknown hk rfl
    have harc : t.isMembershipArc = false := hasAny_of_unknown hk rfl
    have hconnector : t.isConnector = false := hasAny_of_unknown hk rfl
    rw [hnode, harc, hconnector]
    rfl
  | false =>
    have hsame := hkept hk
    have hnode : s.isNode = t.isNode := hasAny_of_kind hsame rfl
    have harc : s.isMembershipArc = t.isMembershipArc := hasAny_of_kind hsame rfl
    have hconnector : s.isConnector = t.isConnector := hasAny_of_kind hsame rfl
    rw [hnode, harc, hconnector, hsame] at hrest'
    -- the same bits are allowed both times
    split at hrest
    next hn =>
      rw [if_pos hn, Bool.and_eq_true] at hrest' ⊢
      rw [Bool.and_eq_true] at hrest
      exact ⟨hrest'.1, agreesOn_trans hrest.2 hrest'.2⟩
    next hn =>
      rw [if_neg hn] at hrest' ⊢
      split at hrest
      next ha =>
        rw [if_pos ha] at hrest' ⊢
        simp only [Bool.and_eq_true] at hrest hrest' ⊢
        obtain ⟨⟨⟨-, hperm⟩, hpos⟩, hact⟩ := hrest
        obtain ⟨⟨⟨hwithin, hperm'⟩, hpos'⟩, hact'⟩ := hrest'
        exact ⟨⟨⟨hwithin, agreesOn_trans hperm hperm'⟩, agreesOn_trans hpos hpos'⟩,
          agreesOn_trans hact hact'⟩
      next ha =>
        rw [if_neg ha] at hrest' ⊢
        exact hrest'

/-- What a type was narrowed to it can be narrowed to once more. -/
theorem narrow?_self (h : t.narrow? s = some m) : t.narrow? m = some m := by
  obtain ⟨rfl, hrest⟩ := narrow?_eq_some_iff.1 h
  exact narrow?_eq_some_iff.2 ⟨or_or_self.symm, hrest⟩

theorem narrow?_trans (h : t.narrow? s = some s) (h' : s.narrow? u = some m) :
    t.narrow? m = some m := by
  obtain ⟨hs, hlink, hnarrows⟩ := narrow?_eq_some_iff.1 h
  obtain ⟨rfl, hlink', hnarrows'⟩ := narrow?_eq_some_iff.1 h'
  refine narrow?_eq_some_iff.2 ⟨?_, hlink'.trans hlink, narrowsTo_trans hnarrows hnarrows'⟩
  rw [or_assoc, ← hs]

/-- To stay as it is, or to be narrowed. -/
def Becomes (t u : ElementType) : Prop := u = t ∨ t.narrow? u = some u

theorem Becomes.refl (t : ElementType) : t.Becomes t := .inl rfl

theorem becomes_of_narrow? (h : t.narrow? s = some m) : t.Becomes m := .inr (narrow?_self h)

theorem Becomes.trans (h : t.Becomes s) (h' : s.Becomes u) : t.Becomes u := by
  rcases h with rfl | h
  · exact h'
  · rcases h' with rfl | h'
    · exact .inr h
    · exact .inr (narrow?_trans h h')

theorem Becomes.mould (h : t.Becomes u) (hk : t.kind.isUnknown = false) : u.mould = t.mould := by
  rcases h with rfl | h
  · rfl
  · exact mould_of_narrow? h hk

/-! ## Types without a kind -/

/-- What has no kind is counted as a node. -/
theorem sort_of_unknown (hk : t.kind.isUnknown = true) : t.sort = .node := by
  have hnode : t.isNode = false := hasAny_of_unknown hk rfl
  have hconnector : t.isConnector = false := hasAny_of_unknown hk rfl
  rw [sort, hconnector, isLink_eq_false hnode]
  rfl

theorem sort_commonEdge_or : (commonEdge ||| t).sort = .connector := by
  have hconnector : (commonEdge ||| t).isConnector = true := by
    rw [or_comm]
    exact hasAny_or_self (by decide)
  rw [sort, if_pos hconnector]

/-- What has no kind may become a common edge. -/
theorem narrow?_commonEdge (hk : t.kind.isUnknown = true) :
    t.narrow? commonEdge = some (commonEdge ||| t) := by
  have hnone : ∀ m, kindBits &&& m = m → t.hasAny m = false := fun _ => hasAny_of_unknown hk
  have hnode : (commonEdge ||| t).isNode = false := by
    rw [or_comm]
    exact (hasAny_or rfl).trans (hnone node rfl)
  have hlink : (commonEdge ||| t).isLink = t.isLink :=
    (isLink_eq_false hnode).trans (isLink_eq_false (hnone node rfl)).symm
  have hconst : t.agreesOn (commonEdge ||| t) constancyBits = true := by
    refine agreesOn_iff.2 (.inr ?_)
    rw [or_comm, or_and_distrib]
    exact (ext_bits UInt16.or_zero).symm
  refine narrow?_eq_some_iff.2 ⟨rfl, hlink, ?_⟩
  rw [narrowsTo, agreesOn_iff.2 (.inl (isUnknown_iff.1 hk)), hconst, isNode, hnone node rfl,
    isMembershipArc, hnone membershipArc rfl, isConnector, hnone connectorBits rfl]
  rfl

/-! ## What stays -/

/-- What `u` has of `t`: all bits, the kind with the sort, the link mark, and each group of marks
that `t` settles. The marks of a node are one group. -/
structure Refines (t u : ElementType) : Prop where
  bits : u.hasAll t = true
  kind : u.kind = t.kind
  sort : u.sort = t.sort
  isLink : u.isLink = t.isLink
  narrows : u = t ∨ t.narrowsTo u = true
  constancy : t.agreesOn u constancyBits = true
  positivity : t.agreesOn u positivityBits = true
  permanency : t.agreesOn u permanencyBits = true
  actuality : t.agreesOn u actualityBits = true
  marks : t.isNode = true → t.agreesOn u nodeBits = true

theorem Refines.refl (t : ElementType) : t.Refines t :=
  ⟨beq_iff_eq.2 and_self, rfl, rfl, rfl, .inl rfl, agreesOn_self, agreesOn_self, agreesOn_self,
    agreesOn_self, fun _ => agreesOn_self⟩

/-- A group of marks that is none of kind or constancy stays when it is settled: that of a node is
part of its marks, that of a membership is asked for, and no other connector has any. -/
theorem agreesOn_of_narrowsTo (h : t.narrowsTo u = true) (hbits : u.hasAll t = true)
    (hk : t.kind.isUnknown = false)
    (hnode : nodeBits &&& ((node ||| constancyBits ||| nodeBits) &&& m)
      = (node ||| constancyBits ||| nodeBits) &&& m)
    (hfree : kindBits &&& m = unknown ∧ constancyBits &&& m = unknown)
    (harc : t.agreesOn u permanencyBits = true → t.agreesOn u positivityBits = true →
      t.agreesOn u actualityBits = true → t.agreesOn u m = true) : t.agreesOn u m = true := by
  simp only [narrowsTo, Bool.and_eq_true] at h
  obtain ⟨⟨-, hconst⟩, hrest⟩ := h
  split at hrest
  next hn =>
    obtain ⟨hwithin, hmarks⟩ := (Bool.and_eq_true _ _).mp hrest
    have hu := and_of_within hwithin
    exact agreesOn_of_within hmarks (and_of_sub hbits hu) hu hnode
  next hn =>
    split at hrest
    next ha =>
      simp only [Bool.and_eq_true] at hrest
      exact harc hrest.1.1.2 hrest.1.2 hrest.2
    next ha =>
      split at hrest
      next hc =>
        have hu := and_of_within hrest
        refine agreesOn_of_within hconst (and_of_sub hbits hu) hu ?_
        -- nothing of the group is allowed
        have hnone : (t.kind ||| constancyBits) &&& m = unknown := by
          rw [or_and_distrib, kind, and_assoc, hfree.1, hfree.2, and_unknown, or_self]
        rw [hnone, and_unknown]
      next hc =>
        rw [kind_eq_unknown (Bool.not_eq_true _ ▸ hn) (Bool.not_eq_true _ ▸ hc)] at hk
        exact absurd hk (by decide)

/-- What a type of known kind becomes refines it. -/
theorem Becomes.refines (h : t.Becomes u) (hk : t.kind.isUnknown = false) : t.Refines u := by
  have hmould := h.mould hk
  rcases h with rfl | h
  · exact .refl u
  obtain ⟨hor, hlink, hnarrows⟩ := narrow?_eq_some_iff.1 h
  have hbits := hasAll_of_or hor.symm
  refine ⟨hbits, kind_of_mould hmould, sort_of_mould hmould, hlink, .inr hnarrows, ?_, ?_, ?_, ?_,
    fun hn => ?_⟩
  · simp only [narrowsTo, Bool.and_eq_true] at hnarrows
    exact hnarrows.1.2
  · exact agreesOn_of_narrowsTo hnarrows hbits hk rfl ⟨rfl, rfl⟩ fun _ hpos _ => hpos
  · exact agreesOn_of_narrowsTo hnarrows hbits hk rfl ⟨rfl, rfl⟩ fun hperm _ _ => hperm
  · exact agreesOn_of_narrowsTo hnarrows hbits hk rfl ⟨rfl, rfl⟩ fun _ _ hact => hact
  · rw [narrowsTo, if_pos hn] at hnarrows
    simp only [Bool.and_eq_true] at hnarrows
    exact hnarrows.2.2

end SemanticNet.ElementType
