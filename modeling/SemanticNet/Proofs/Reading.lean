import SemanticNet.Dump.Record
import SemanticNet.Proofs.Sound
import SemanticNet.Proofs.Steps

/-!
# Reading what was written

A reader yields a thing from a string of bytes when it takes just these bytes, whatever follows, and
returns the thing (`Reader.Yields`). Every reader of a dump yields what the bytes were written for,
up to the record of an element: those elements are read back that are formed as a record wants them
(`Reader.yields_element`), and only such elements are read (`Reader.formed_of_element`).
-/

namespace SemanticNet

/-- As many bytes as are written keep as much of a number. -/
theorem ofLittleEndian_littleEndian (width n : Nat) :
    ofLittleEndian (littleEndian width n) = n % 256 ^ width := by
  induction width generalizing n with
  | zero => simp [littleEndian, ofLittleEndian, Nat.mod_one]
  | succ width ih =>
    have h : 256 ^ (width + 1) = 256 * 256 ^ width := Nat.pow_succ'
    rw [littleEndian, ofLittleEndian, ih, UInt8.toNat_ofNat', h, Nat.mod_mul]

namespace Reader

variable {α β : Type} {r : Reader α} {f : α → Reader β} {a : α} {b : β}
  {bytes front back rest : Bytes}

/-- The reader takes these bytes, whatever follows, and returns `a`. -/
def Yields (r : Reader α) (bytes : Bytes) (a : α) : Prop :=
  ∀ rest, r (bytes ++ rest) = .ok (a, rest)

theorem yields_pure (a : α) : (pure a : Reader α).Yields [] a := fun _ => rfl

/-- What a reader yields is handed on to the next one. -/
theorem Yields.bind_apply (h : r.Yields front a) (rest : Bytes) :
    (r >>= f) (front ++ rest) = f a rest := by
  show (r (front ++ rest)).bind (fun p => f p.1 p.2) = _
  rw [h]
  rfl

theorem Yields.bind (h : r.Yields front a) (h' : (f a).Yields back b) :
    (r >>= f).Yields (front ++ back) b := by
  intro rest
  rw [List.append_assoc, h.bind_apply, h']

theorem Yields.bind_nil (h : r.Yields [] a) (h' : (f a).Yields back b) :
    (r >>= f).Yields back b := h.bind h'

theorem Yields.bind_pure (h : r.Yields bytes a) (g : α → β) :
    (r >>= fun x => pure (g x)).Yields bytes (g a) := by
  have h' : (r >>= fun x => pure (g x)).Yields (bytes ++ []) (g a) := h.bind (yields_pure (g a))
  rwa [List.append_nil] at h'

theorem Yields.map (h : r.Yields bytes a) (g : α → β) : (g <$> r).Yields bytes (g a) :=
  h.bind_pure g

/-- A reader that only checks what was read goes on when the check passes. -/
theorem Yields.guard {P : Prop} [Decidable P] {e : Failure} {x : Reader α} (hP : ¬P)
    (h : x.Yields bytes a) : (if P then throw e >>= fun _ : Unit => x else x).Yields bytes a := by
  rw [if_neg hP]
  exact h

theorem yields_lift {x : Except Failure α} (h : x = .ok a) : (liftM x : Reader α).Yields [] a := by
  subst h
  exact fun _ => rfl

/-- What comes out of a reader with a function after it is what the function makes of what was read.
-/
theorem map_apply_eq_ok {g : α → β} {p : β × Bytes} (h : (g <$> r) bytes = .ok p) :
    ∃ a, r bytes = .ok (a, p.2) ∧ p.1 = g a := by
  obtain ⟨q, hq, hp⟩ := bind_eq_ok_iff.1
    (show r bytes >>= (fun q => .ok (g q.1, q.2)) = .ok p from h)
  obtain rfl := Except.ok.inj hp
  exact ⟨q.1, hq, rfl⟩

/-- What comes out of two readers in a row was read by the first one and then the second one. -/
theorem bind_apply_eq_ok {p : β × Bytes} (h : (r >>= f) bytes = .ok p) :
    ∃ a rest, r bytes = .ok (a, rest) ∧ f a rest = .ok p := by
  obtain ⟨q, hq, hp⟩ := bind_eq_ok_iff.1 (show r bytes >>= (fun q => f q.1 q.2) = .ok p from h)
  exact ⟨q.1, q.2, hq, hp⟩

theorem yields_take (bytes : Bytes) : (take bytes.length).Yields bytes bytes := by
  intro rest
  rw [take, splitExactly_append]

theorem yields_number (width n : Nat) :
    (number width).Yields (littleEndian width n) (n % 256 ^ width) := by
  have h := (yields_take (littleEndian width n)).map ofLittleEndian
  rw [length_littleEndian, ofLittleEndian_littleEndian] at h
  exact h

/-- A number that fits is read as it was. -/
theorem yields_number_of_lt {n : Nat} (width : Nat) (h : n < 256 ^ width) :
    (number width).Yields (littleEndian width n) n := by
  have h' := yields_number width n
  rwa [Nat.mod_eq_of_lt h] at h'

theorem yields_byte (b : UInt8) : byte.Yields [b] b := by
  have h := (yields_number_of_lt 1 b.toNat_lt).map UInt8.ofNat
  have hb : littleEndian 1 b.toNat = [b] := by simp [littleEndian]
  rw [hb, UInt8.ofNat_toNat] at h
  exact h

theorem yields_half (n : UInt16) : half.Yields (littleEndian 2 n.toNat) n := by
  have h := (yields_number_of_lt 2 n.toNat_lt).map UInt16.ofNat
  rw [UInt16.ofNat_toNat] at h
  exact h

theorem yields_word (n : UInt32) : word.Yields (littleEndian 4 n.toNat) n := by
  have h := (yields_number_of_lt 4 n.toNat_lt).map UInt32.ofNat
  rw [UInt32.ofNat_toNat] at h
  exact h

theorem yields_address (a : Address) : address.Yields (Dump.ofAddress a) a := by
  have h := (yields_number_of_lt 4 a.packed_lt).map Address.ofPacked
  rw [Address.ofPacked_packed] at h
  exact h

/-- A list is read back, thing by thing. -/
theorem yields_many {write : α → Bytes} {as : List α} (h : ∀ a ∈ as, r.Yields (write a) a) :
    (many r as.length).Yields (as.flatMap write) as := by
  induction as with
  | nil => exact yields_pure []
  | cons a as ih =>
    have hrest := ih fun b hb => h b (List.mem_cons_of_mem a hb)
    exact Yields.bind (h a List.mem_cons_self) (Yields.bind_pure hrest _)

theorem yields_link (l : RingLink) : link.Yields (Dump.ofLink l) l :=
  Yields.bind (yields_address l.prev) (Yields.bind_pure (yields_address l.next) _)

theorem yields_connection (c : Option Connection) :
    connection.Yields (Dump.ofConnection c) c := by
  cases c with
  | none =>
    have hbyte : connection.Yields ([0] ++ []) none :=
      Yields.bind (yields_byte 0) (yields_pure none)
    exact hbyte
  | some c =>
    have hbytes : Dump.ofConnection (some c) = [1] ++ (Dump.ofAddress c.source ++
        (Dump.ofAddress c.target ++ (Dump.ofLink c.sourceOut ++ (Dump.ofLink c.targetIn ++
          (Dump.ofLink c.targetOut ++ Dump.ofLink c.sourceIn))))) := by
      simp [Dump.ofConnection]
    rw [hbytes]
    apply Yields.bind (yields_byte 1)
    refine Yields.bind (yields_address c.source) (Yields.bind (yields_address c.target) ?_)
    refine Yields.bind (yields_link c.sourceOut) (Yields.bind (yields_link c.targetIn) ?_)
    exact Yields.bind (yields_link c.targetOut) (Yields.bind_pure (yields_link c.sourceIn) _)

end Reader

/-! ## Elements -/

/-- An element as a record holds it: its type is known, it is a connector just when it has a
connection, its levels are in use, and it carries no mark of an erasure. -/
structure Element.Formed (e : Element) : Prop where
  known : e.type.isUnknown = false
  connection : e.connection.isSome = e.type.isConnector
  access : e.access.InUse
  flags : e.flags &&& keptFlags = e.flags
  calm : e.erasing = false

theorem Element.Proper.formed {e : Element} (h : e.Proper) (hcalm : e.erasing = false) :
    e.Formed where
  known := ElementType.isUnknown_of_kind h.kind
  connection := h.connection
  access := h.access
  flags := by
    rw [h.flags]
    rfl
  calm := hcalm

namespace Reader

variable {α : Type} {bytes rest : Bytes}

/-- The record of an element is read back. -/
theorem yields_element (offset : UInt16) {e : Element} (h : e.Formed) :
    element.Yields (Dump.ofElement offset e) (offset, e) := by
  have hlevels : (Access.ofPacked <$> byte).Yields [e.access.packed] e.access := by
    have := (yields_byte e.access.packed).map Access.ofPacked
    rwa [Access.ofPacked_packed h.access] at this
  have hmismatch : ¬(e.connection.isSome != e.type.isConnector) = true := by
    rw [h.connection]
    simp
  have hbytes : Dump.ofElement offset e = littleEndian 2 offset.toNat ++
      (littleEndian 2 e.type.bits.toNat ++ ([e.flags &&& keptFlags] ++ ([e.access.packed] ++
        (Dump.ofAddress e.outgoing.first ++ (Dump.ofAddress e.incoming.first ++
          (littleEndian 4 e.outgoing.count.toNat ++ (littleEndian 4 e.incoming.count.toNat ++
            Dump.ofConnection e.connection))))))) := by
    simp [Dump.ofElement]
  rw [hbytes]
  refine Yields.bind (yields_half offset) (Yields.bind (yields_half e.type.bits) ?_)
  apply Yields.guard (by simp [h.known])
  refine Yields.bind (yields_byte _) (Yields.bind hlevels ?_)
  refine Yields.bind (yields_address _) (Yields.bind (yields_address _) ?_)
  refine Yields.bind (yields_word _) (Yields.bind (yields_word _) ?_)
  rw [← List.append_nil (Dump.ofConnection e.connection)]
  refine Yields.bind (yields_connection e.connection) (Yields.guard hmismatch ?_)
  rw [h.flags, h.flags]
  have he : ({ e with erasing := false } : Element) = e := by
    have := h.calm
    cases e
    simp_all
  show (pure (offset, ({ e with erasing := false } : Element)) : Reader _).Yields [] (offset, e)
  rw [he]
  exact yields_pure _

/-- Whatever the bytes are, an element that is read from them is formed as a record wants it. -/
theorem formed_of_element {p : UInt16 × Element} (h : element bytes = .ok (p, rest)) :
    p.2.Formed := by
  obtain ⟨offset, bytes, -, h⟩ := bind_apply_eq_ok h
  obtain ⟨type, bytes, -, h⟩ := bind_apply_eq_ok h
  dsimp only at h
  split at h
  · cases h
  next hknown =>
    obtain ⟨flags, bytes, -, h⟩ := bind_apply_eq_ok h
    obtain ⟨access, bytes, haccess, h⟩ := bind_apply_eq_ok h
    obtain ⟨firstOut, bytes, -, h⟩ := bind_apply_eq_ok h
    obtain ⟨firstIn, bytes, -, h⟩ := bind_apply_eq_ok h
    obtain ⟨outCount, bytes, -, h⟩ := bind_apply_eq_ok h
    obtain ⟨inCount, bytes, -, h⟩ := bind_apply_eq_ok h
    obtain ⟨connection, bytes, -, h⟩ := bind_apply_eq_ok h
    split at h
    · cases h
    next hmatch =>
      cases h
      obtain ⟨packed, -, rfl⟩ := map_apply_eq_ok haccess
      refine ⟨by simpa using hknown, by simpa using hmatch, Access.inUse_ofPacked packed, ?_, rfl⟩
      rw [UInt8.and_assoc, UInt8.and_self]

/-- Each of many things was read from some place. -/
theorem exists_of_many {r : Reader α} {n : Nat} {as : List α}
    (h : many r n bytes = .ok (as, rest)) : ∀ a ∈ as, ∃ front back, r front = .ok (a, back) := by
  induction n generalizing bytes as with
  | zero =>
    cases h
    simp
  | succ n ih =>
    obtain ⟨b, bytes₁, hb, h⟩ := bind_apply_eq_ok h
    obtain ⟨bs, bytes₂, hbs, h⟩ := bind_apply_eq_ok h
    cases h
    intro a ha
    rcases List.mem_cons.1 ha with rfl | ha
    · exact ⟨_, _, hb⟩
    · exact ih hbs a ha

end Reader

end SemanticNet
