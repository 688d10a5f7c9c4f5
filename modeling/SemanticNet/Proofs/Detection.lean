import SemanticNet.Proofs.Framing
import SemanticNet.Proofs.Remainders

/-!
# A changed byte is noticed

The register of the checksum can be moved back: a shift loses no bit, since the bit that falls out
is the highest one of the polynomial that is added (`Crc32.shift_injective`). So a difference that a
byte makes to the register stays in it, whatever bytes follow (`Crc32.register_ne`), and a dump with
one byte changed, of its body or of its checksum, is refused (`Dump.decode_changed_byte`).
-/

namespace SemanticNet

/-! ## The register -/

namespace Crc32

variable {r : UInt32} {b b' : UInt8} {front back : Bytes}

/-- The highest bit after a shift is the one that fell out. -/
theorem getLsbD_shift_top (r : UInt32) :
    (shift r).toBitVec.getLsbD 31 = r.toBitVec.getLsbD 0 := by
  have htop : polynomial.toBitVec.getLsbD 31 = true := by decide
  rw [getLsbD_shift, htop, Bool.and_true, BitVec.getLsbD_of_ge _ _ (by decide), Bool.false_xor]

theorem shift_injective : Function.Injective shift := by
  intro r r' h
  have hlow : r.toBitVec.getLsbD 0 = r'.toBitVec.getLsbD 0 := by
    rw [← getLsbD_shift_top r, ← getLsbD_shift_top r', h]
  apply UInt32.toBitVec_inj.1
  apply BitVec.eq_of_getLsbD_eq
  intro i hi
  cases i with
  | zero => exact hlow
  | succ i =>
    have hbit := congrArg (fun x => x.toBitVec.getLsbD i) h
    simp only [getLsbD_shift, hlow, Bool.xor_left_inj] at hbit
    rwa [Nat.add_comm]

theorem repeat_shift_injective (n : Nat) : Function.Injective (Nat.repeat shift n) := by
  induction n with
  | zero => exact Function.injective_id
  | succ n ih => exact shift_injective.comp ih

/-- The register before a byte can be told from the one after it. -/
theorem feed_left_injective (b : UInt8) : Function.Injective (feed · b) := fun _ _ h =>
  (UInt32.xor_left_inj _).1 (repeat_shift_injective 8 h)

/-- A byte can be told from what it makes of the register. -/
theorem feed_right_injective (r : UInt32) : Function.Injective (feed r) := by
  intro b b' h
  have hbyte := (UInt32.xor_right_inj _).1 (repeat_shift_injective 8 h)
  simpa using congrArg UInt32.toUInt8 hbyte

theorem foldl_feed_injective (bytes : Bytes) : Function.Injective (bytes.foldl feed ·) := by
  induction bytes with
  | nil => exact Function.injective_id
  | cons b bytes ih => exact ih.comp (feed_left_injective b)

theorem register_ne (h : b ≠ b') :
    register (front ++ b :: back) ≠ register (front ++ b' :: back) := by
  intro heq
  simp only [register, List.foldl_append, List.foldl_cons] at heq
  exact h (feed_right_injective _ (foldl_feed_injective back heq))

/-- Bytes of which one is changed have another check. -/
theorem check_set_ne {bytes : Bytes} {i : Nat} (hb : bytes[i]? = some b) (h : b' ≠ b) :
    check (bytes.set i b') ≠ check bytes := by
  obtain ⟨hi, rfl⟩ := List.getElem?_eq_some_iff.1 hb
  obtain ⟨front, back, hsplit, -, hset⟩ := @List.exists_of_set _ i b' bytes hi
  intro heq
  have hregister : register (bytes.set i b') = register bytes := by simpa [check] using heq
  rw [hset] at hregister
  exact register_ne h (hregister.trans (congrArg register hsplit))

/-- The value by which this check is told from others of 32 bits: that of the digits from 1 to 9. -/
example : check [0x31, 0x32, 0x33, 0x34, 0x35, 0x36, 0x37, 0x38, 0x39] = 0xCBF43926 := by
  decide +kernel

end Crc32

/-! ## Dumps -/

namespace Dump

variable {check : Bytes → UInt32} {settings : Settings} {bytes body trailer : Bytes}

/-- A body with four bytes after it that are not its checksum is refused for that. -/
theorem decode_wrong_checksum (hlength : trailer.length = 4)
    (hne : littleEndian 4 (check body).toNat ≠ trailer) :
    decode check settings (body ++ trailer) = .error (.corrupt .checksum) := by
  have hbody : (body ++ trailer).length - 4 = body.length := by simp [hlength]
  have hcheck : (check body).toNat ≠ ofLittleEndian trailer := by
    intro h
    rw [h, ← hlength, littleEndian_ofLittleEndian] at hne
    exact hne rfl
  rw [decode, hbody, splitExactly_append]
  dsimp only
  rw [if_neg (by omega), if_pos hcheck]
  rfl

/-- The four bytes tell one checksum from another. -/
theorem eq_of_littleEndian {m n : UInt32} (h : littleEndian 4 m.toNat = littleEndian 4 n.toNat) :
    m = n := by
  have hvalue : ∀ n : UInt32, ofLittleEndian (littleEndian 4 n.toNat) = n.toNat := fun n => by
    exact (ofLittleEndian_littleEndian 4 _).trans (Nat.mod_eq_of_lt n.toNat_lt)
  rw [← UInt32.toNat_inj, ← hvalue m, ← hvalue n, h]

/-- With the checksum that is specified, a dump that is accepted is refused once any one of its
bytes is another one. -/
theorem decode_changed_byte (hcheck : Crc32.Standard check) {x : Store × Summary}
    (h : decode check settings bytes = .ok x) {i : Nat} {old new : UInt8}
    (hold : bytes[i]? = some old) (hnew : new ≠ old) :
    decode check settings (bytes.set i new) = .error (.corrupt .checksum) := by
  obtain rfl : check = Crc32.check := hcheck.unique Crc32.standard_check
  obtain ⟨s, y⟩ := x
  obtain ⟨body, -, rfl, -, -⟩ := decode_eq_ok_iff.1 h
  rw [List.set_append]
  by_cases hi : i < body.length
  · rw [if_pos hi]
    rw [List.getElem?_append_left hi] at hold
    refine decode_wrong_checksum (length_littleEndian 4 _) fun heq => ?_
    exact Crc32.check_set_ne hold hnew (eq_of_littleEndian heq)
  · rw [if_neg hi]
    rw [List.getElem?_append_right (Nat.le_of_not_lt hi)] at hold
    refine decode_wrong_checksum (by simp) fun heq => hnew ?_
    have hset := List.getElem?_set_self (a := new) (List.getElem?_eq_some_iff.1 hold).1
    rw [← heq, hold] at hset
    exact (Option.some.inj hset).symm

/-- The dump of a store of one link. -/
def checkedDump : Bytes :=
  encode Crc32.check ((Store.addLink .const .lowest).on (.ofSettings .small)).2

/-- A change of the first byte of the signature, and one of the last byte of the checksum. -/
theorem decode_changed_byte_checkedDump : ∃ x first last,
    decode Crc32.check .small checkedDump = .ok x ∧
    checkedDump[0]? = some first ∧ 0 ≠ first ∧
    decode Crc32.check .small (checkedDump.set 0 0) = .error (.corrupt .checksum) ∧
    checkedDump[58]? = some last ∧ 0 ≠ last ∧
    decode Crc32.check .small (checkedDump.set 58 0) = .error (.corrupt .checksum) := by
  have hok : (decode Crc32.check .small checkedDump).isOk = true := by decide +kernel
  have hfirst : checkedDump[0]? = some 0x53 := by decide +kernel
  have hlast : checkedDump[58]? = some 0x3B := by decide +kernel
  cases h : decode Crc32.check .small checkedDump with
  | error f => simp [h, Except.isOk, Except.toBool] at hok
  | ok x =>
    have hcheck := Crc32.standard_check
    exact ⟨x, _, _, rfl, hfirst, by decide, decode_changed_byte hcheck h hfirst (by decide),
      hlast, by decide, decode_changed_byte hcheck h hlast (by decide)⟩

end Dump

end SemanticNet
