import Mathlib
import SemanticNet.Dump.Checksum

/-!
# The checksum as a remainder

A string of bits is a polynomial over the field of two elements, and the checksum is what is left of
it after division by a generator of degree 32 (`Crc32.Standard`, `Crc32.standard_check`). The
register goes through the message bit by bit: to shift it is to multiply by `X` and to reduce by the
generator (`Crc32.polynomialOf_shift`).
-/

namespace SemanticNet.Crc32

open Polynomial

variable {w : Nat} {x y : BitVec w} {r : UInt32} {b : UInt8} {bits bits' : List Bool}

/-! ## Bits as coefficients -/

/-- The coefficient of a bit. -/
noncomputable def coefficient (b : Bool) : (ZMod 2)[X] := if b then 1 else 0

theorem coefficient_xor (a b : Bool) : coefficient (a ^^ b) = coefficient a + coefficient b := by
  cases a <;> cases b <;> simp [coefficient, CharTwo.add_self_eq_zero]

theorem coefficient_and (a b : Bool) : coefficient (a && b) = coefficient a * coefficient b := by
  cases a <;> cases b <;> simp [coefficient]

/-- The polynomial with the given coefficients, the highest one first. -/
noncomputable def ofBits (bits : List Bool) : (ZMod 2)[X] :=
  bits.foldl (fun p b => X * p + coefficient b) 0

theorem ofBits_concat (bits : List Bool) (b : Bool) :
    ofBits (bits ++ [b]) = X * ofBits bits + coefficient b := by
  rw [ofBits, List.foldl_append]
  rfl

theorem ofBits_append (bits bits' : List Bool) :
    ofBits (bits ++ bits') = X ^ bits'.length * ofBits bits + ofBits bits' := by
  induction bits' using List.reverseRecOn with
  | nil => simp [ofBits]
  | append_singleton bits' b ih =>
    rw [← List.append_assoc, ofBits_concat, ih, ofBits_concat, List.length_append,
      List.length_singleton]
    ring

theorem ofBits_map_range (n : Nat) (f : Nat → Bool) :
    ofBits ((List.range n).map f) = ∑ i ∈ Finset.range n, coefficient (f i) * X ^ (n - 1 - i) := by
  induction n with
  | zero => rfl
  | succ n ih =>
    rw [List.range_succ, List.map_append, List.map_singleton, ofBits_concat, ih,
      Finset.sum_range_succ, Finset.mul_sum]
    refine congrArg₂ (· + ·) (Finset.sum_congr rfl fun i hi => ?_) ?_
    · have hi := Finset.mem_range.1 hi
      rw [show n + 1 - 1 - i = n - 1 - i + 1 by omega, pow_succ]
      ring
    · simp

/-- The polynomial has no more coefficients than there are bits. -/
theorem degree_ofBits_lt (bits : List Bool) : (ofBits bits).degree < bits.length := by
  rw [degree_lt_iff_coeff_zero]
  induction bits using List.reverseRecOn with
  | nil => simp [ofBits]
  | append_singleton bits b ih =>
    intro k hk
    rw [List.length_append, List.length_singleton] at hk
    obtain ⟨k, rfl⟩ := Nat.exists_eq_add_of_le' (Nat.le_trans (Nat.le_add_left 1 _) hk)
    rw [ofBits_concat, coeff_add, coeff_X_mul, ih k (by omega)]
    cases b <;> simp [coefficient, coeff_one]

/-- Bits are known by the polynomial and their number. -/
theorem eq_of_ofBits (hlength : bits.length = bits'.length) (h : ofBits bits = ofBits bits') :
    bits = bits' := by
  induction bits using List.reverseRecOn generalizing bits' with
  | nil => exact (List.length_eq_zero_iff.1 hlength.symm).symm
  | append_singleton bits b ih =>
    obtain rfl | ⟨rest, c, rfl⟩ := bits'.eq_nil_or_concat
    · simp at hlength
    rw [List.concat_eq_append, ofBits_concat, ofBits_concat] at h
    obtain rfl : b = c := by
      have hlast := congrArg (fun p => p.coeff 0) h
      cases b <;> cases c <;> simp [coefficient] at hlast ⊢
    have hrest := isRegular_X.left (add_right_cancel h)
    rw [List.concat_eq_append, ih (by simpa using hlength) hrest]

/-! ## Words -/

/-- The bits of a word in the order in which they are sent, the lowest one first. -/
def bitsOf (x : BitVec w) : List Bool := (List.range w).map x.getLsbD

/-- The polynomial of a word. -/
noncomputable def polynomialOf (x : BitVec w) : (ZMod 2)[X] := ofBits (bitsOf x)

theorem length_bitsOf : (bitsOf x).length = w := by simp [bitsOf]

theorem bitsOf_injective : Function.Injective (bitsOf : BitVec w → List Bool) := by
  intro x y h
  refine BitVec.eq_of_getLsbD_eq fun i hi => ?_
  have hbit := congrArg (fun bits => bits[i]?) h
  simpa [bitsOf, hi] using hbit

theorem polynomialOf_injective : Function.Injective (polynomialOf : BitVec w → (ZMod 2)[X]) :=
  fun _ _ h => bitsOf_injective (eq_of_ofBits (length_bitsOf.trans length_bitsOf.symm) h)

theorem polynomialOf_eq_sum (x : BitVec w) :
    polynomialOf x = ∑ i ∈ Finset.range w, coefficient (x.getLsbD i) * X ^ (w - 1 - i) :=
  ofBits_map_range w x.getLsbD

theorem degree_polynomialOf_lt (x : BitVec w) : (polynomialOf x).degree < w := by
  have h := degree_ofBits_lt (bitsOf x)
  rwa [length_bitsOf] at h

theorem polynomialOf_xor (x y : BitVec w) :
    polynomialOf (x ^^^ y) = polynomialOf x + polynomialOf y := by
  simp only [polynomialOf_eq_sum, BitVec.getLsbD_xor, coefficient_xor, add_mul,
    Finset.sum_add_distrib]

/-- In a wider word there are as many low coefficients more, which are zero. -/
theorem polynomialOf_setWidth (x : BitVec w) (k : Nat) :
    polynomialOf (x.setWidth (w + k)) = X ^ k * polynomialOf x := by
  rw [polynomialOf_eq_sum, polynomialOf_eq_sum, Finset.sum_range_add, Finset.mul_sum]
  have hhigh : ∑ i ∈ Finset.range k, coefficient ((x.setWidth (w + k)).getLsbD (w + i))
      * X ^ (w + k - 1 - (w + i)) = 0 := by
    refine Finset.sum_eq_zero fun i _ => ?_
    rw [BitVec.getLsbD_setWidth, BitVec.getLsbD_of_ge x _ (Nat.le_add_right w i), Bool.and_false]
    simp [coefficient]
  rw [hhigh, add_zero]
  refine Finset.sum_congr rfl fun i hi => ?_
  have hi := Finset.mem_range.1 hi
  have hlow : i < w + k := by omega
  rw [BitVec.getLsbD_setWidth, decide_eq_true hlow, Bool.true_and,
    show w + k - 1 - i = k + (w - 1 - i) by omega, pow_add]
  ring

/-! ## The check -/

/-- The generator. -/
noncomputable def generator : (ZMod 2)[X] :=
  X ^ 32 + X ^ 26 + X ^ 23 + X ^ 22 + X ^ 16 + X ^ 12 + X ^ 11 + X ^ 10 + X ^ 8 + X ^ 7 + X ^ 5 +
    X ^ 4 + X ^ 2 + X + 1

/-- The bits of a message, byte by byte. -/
def messageBits (bytes : Bytes) : List Bool := bytes.flatMap fun b => bitsOf b.toBitVec

/-- The check as it is specified, bits being sent from the highest coefficient on. Zeros are added
to the message, 32 of them, and the first 32 bits of that are complemented; it is divided by the
generator; and the remainder is sent complemented. -/
def Standard (check : Bytes → UInt32) : Prop :=
  ∀ bytes, polynomialOf (~~~check bytes).toBitVec =
    (X ^ 32 * ofBits (messageBits bytes) +
      X ^ (messageBits bytes).length * ofBits (List.replicate 32 true)) %ₘ generator

/-- The specification leaves no choice. -/
theorem Standard.unique {check check' : Bytes → UInt32} (h : Standard check)
    (h' : Standard check') : check = check' := by
  funext bytes
  have hbits := polynomialOf_injective ((h bytes).trans (h' bytes).symm)
  simpa using UInt32.toBitVec_inj.1 hbits

theorem monic_generator : generator.Monic := by
  unfold generator
  monicity!

theorem degree_generator : generator.degree = 32 := by
  unfold generator
  compute_degree!

/-- The polynomial that the register is reduced by is the generator without its leading term. -/
theorem generator_eq : generator = X ^ 32 + polynomialOf polynomial.toBitVec := by
  rw [generator, polynomialOf_eq_sum]
  simp [Finset.sum_range_succ, coefficient, polynomial]
  ring

theorem and_one_eq_one_iff : r &&& 1 = 1 ↔ r.toBitVec.getLsbD 0 = true := by
  rw [← UInt32.toBitVec_inj, UInt32.toBitVec_and]
  show r.toBitVec &&& 1#32 = 1#32 ↔ _
  rw [BitVec.and_one_eq_setWidth_ofBool_getLsbD]
  cases r.toBitVec.getLsbD 0 <;> decide

/-- Each bit comes from the one above, and the polynomial is added when a one falls out. -/
theorem getLsbD_shift (r : UInt32) (i : Nat) : (shift r).toBitVec.getLsbD i =
    (r.toBitVec.getLsbD (1 + i) ^^ (r.toBitVec.getLsbD 0 && polynomial.toBitVec.getLsbD i)) := by
  have hhalf : (r >>> 1).toBitVec.getLsbD i = r.toBitVec.getLsbD (1 + i) :=
    BitVec.getLsbD_ushiftRight r.toBitVec 1 i
  unfold shift
  by_cases hlow : r &&& 1 = 1
  · rw [if_pos hlow, UInt32.toBitVec_xor, BitVec.getLsbD_xor, hhalf, and_one_eq_one_iff.1 hlow,
      Bool.true_and]
  · have hlow' : r.toBitVec.getLsbD 0 = false := by
      rwa [and_one_eq_one_iff, Bool.not_eq_true] at hlow
    rw [if_neg hlow, hhalf, hlow', Bool.false_and, Bool.xor_false]

/-- To shift the register is to multiply by `X`, and to reduce when the highest coefficient was
one. -/
theorem polynomialOf_shift (r : UInt32) : polynomialOf (shift r).toBitVec +
    coefficient (r.toBitVec.getLsbD 0) * generator = X * polynomialOf r.toBitVec := by
  -- what falls out has the power that the generator begins with
  have hmoved : ∑ i ∈ Finset.range 32, coefficient (r.toBitVec.getLsbD (1 + i)) * X ^ (31 - i)
      + coefficient (r.toBitVec.getLsbD 0) * X ^ 32 = X * polynomialOf r.toBitVec := by
    have hout : coefficient (r.toBitVec.getLsbD (1 + 31)) = 0 := by
      rw [BitVec.getLsbD_of_ge _ _ (by decide)]
      rfl
    rw [polynomialOf_eq_sum, Finset.sum_range_succ _ 31, hout, zero_mul, add_zero,
      Finset.sum_range_succ' _ 31, mul_add, Finset.mul_sum]
    refine congrArg₂ (· + ·) (Finset.sum_congr rfl fun i hi => ?_) ?_
    · have hi := Finset.mem_range.1 hi
      rw [Nat.add_comm 1 i, show 31 - i = 32 - 1 - (i + 1) + 1 by omega, pow_succ]
      ring
    · ring
  have hadded : polynomialOf (shift r).toBitVec =
      ∑ i ∈ Finset.range 32, coefficient (r.toBitVec.getLsbD (1 + i)) * X ^ (31 - i) +
        coefficient (r.toBitVec.getLsbD 0) * polynomialOf polynomial.toBitVec := by
    simp only [polynomialOf_eq_sum, getLsbD_shift, coefficient_xor, coefficient_and, add_mul,
      Finset.sum_add_distrib, Finset.mul_sum, mul_assoc]
  have htwice : ∀ p : (ZMod 2)[X], p + p = 0 := CharTwo.add_self_eq_zero
  rw [hadded, generator_eq, ← hmoved]
  linear_combination htwice (coefficient (r.toBitVec.getLsbD 0) * polynomialOf polynomial.toBitVec)

theorem dvd_repeat_shift (n : Nat) (r : UInt32) :
    generator ∣ X ^ n * polynomialOf r.toBitVec - polynomialOf (Nat.repeat shift n r).toBitVec := by
  induction n with
  | zero => simp [Nat.repeat]
  | succ n ih =>
    have hstep := polynomialOf_shift (Nat.repeat shift n r)
    have hdvd := dvd_add (ih.mul_left X)
      (Dvd.intro_left (coefficient ((Nat.repeat shift n r).toBitVec.getLsbD 0)) rfl)
    convert hdvd using 1
    rw [Nat.repeat]
    linear_combination -hstep

/-- A byte is added to the highest coefficients of the register and shifted through it. -/
theorem dvd_feed (r : UInt32) (b : UInt8) :
    generator ∣ X ^ 8 * polynomialOf r.toBitVec + X ^ 32 * polynomialOf b.toBitVec
      - polynomialOf (feed r b).toBitVec := by
  have hadded : polynomialOf (r ^^^ b.toUInt32).toBitVec
      = polynomialOf r.toBitVec + X ^ 24 * polynomialOf b.toBitVec := by
    rw [UInt32.toBitVec_xor, polynomialOf_xor]
    exact congrArg (polynomialOf r.toBitVec + ·) (polynomialOf_setWidth b.toBitVec 24)
  have hdvd := dvd_repeat_shift 8 (r ^^^ b.toUInt32)
  rw [hadded] at hdvd
  convert hdvd using 1
  rw [feed]
  ring

/-- The register holds the remainder of what has been fed to it, with its beginning in front. -/
theorem dvd_foldl_feed (bytes : Bytes) (r : UInt32) :
    generator ∣ X ^ 32 * ofBits (messageBits bytes) +
      X ^ (messageBits bytes).length * polynomialOf r.toBitVec
      - polynomialOf (bytes.foldl feed r).toBitVec := by
  induction bytes generalizing r with
  | nil => simp [messageBits, ofBits]
  | cons b bytes ih =>
    have hbits : ofBits (messageBits (b :: bytes))
        = X ^ (messageBits bytes).length * polynomialOf b.toBitVec + ofBits (messageBits bytes) :=
      ofBits_append _ _
    have hlength : (messageBits (b :: bytes)).length = 8 + (messageBits bytes).length := by
      simp [messageBits, length_bitsOf]
    have hdvd := dvd_add (ih (feed r b))
      ((dvd_feed r b).mul_left (X ^ (messageBits bytes).length))
    convert hdvd using 1
    rw [hbits, hlength, pow_add, List.foldl_cons]
    ring

/-- The register comes to the check that is specified. -/
theorem standard_check : Standard check := by
  intro bytes
  have hones : polynomialOf (0xFFFFFFFF : UInt32).toBitVec = ofBits (List.replicate 32 true) := by
    rw [polynomialOf]
    exact congrArg ofBits (by decide)
  have hdvd := dvd_foldl_feed bytes 0xFFFFFFFF
  rw [hones] at hdvd
  have hdegree : (polynomialOf (register bytes).toBitVec).degree < generator.degree := by
    rw [degree_generator]
    exact degree_polynomialOf_lt _
  rw [check, UInt32.not_not, modByMonic_eq_of_dvd_sub monic_generator hdvd]
  exact ((modByMonic_eq_self_iff monic_generator).2 hdegree).symm

end SemanticNet.Crc32
