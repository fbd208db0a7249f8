import Mathlib
import ViewSync.Decimal.Read

/-!
# ViewSync.Proofs.Decimal.Sign

A numeral has no sign, and neither has the double that it is read as (`signless_toFloat`): the sign bit of each
step is made of those of its operands.
-/

namespace ViewSync.Decimal

open Float.Model Float.Model.UnpackedFloat

/-- A double whose sign bit is not set. -/
def Signless (x : Float) : Prop := x.toBits >>> 63 = 0

/-- A double in its parts, if it has the sign of a positive one or none. -/
def IsUnsigned : UnpackedFloat → Prop
  | .infinity sign => sign = .positive
  | .zero sign => sign = .positive
  | .finite sign _ _ _ => sign = .positive
  | .notANumber => True

/-! ## parts and bits -/

theorem msb_packComponents (exponent : BitVec 11) (mantissa : BitVec 52) :
    (packComponents Format.binary64 .positive exponent mantissa).msb = false := by
  rw [packComponents, BitVec.msb_append, if_neg (by decide), BitVec.msb_append, if_neg (by decide)]
  rfl

theorem msb_pack {x : UnpackedFloat} (h : IsUnsigned x) : (UnpackedFloat.pack Format.binary64 x).msb = false := by
  cases x with
  | notANumber => exact msb_packComponents _ _
  | infinity sign =>
      obtain rfl : sign = .positive := h
      exact msb_packComponents _ _
  | zero sign =>
      obtain rfl : sign = .positive := h
      exact msb_packComponents _ _
  | finite sign mantissa exponent hpos =>
      obtain rfl : sign = .positive := h
      rw [UnpackedFloat.pack]
      split
      · exact msb_packComponents _ _
      · split <;> exact msb_packComponents _ _

theorem signBit_iff (bits : UInt64) : bits >>> 63 = 0 ↔ bits.toNat < 2 ^ 63 := by
  rw [← UInt64.toNat_inj, UInt64.toNat_shiftRight, Nat.shiftRight_eq_div_pow]
  simp

/-- What has no sign is packed without one. -/
theorem signless_of_unsigned {x : UnpackedFloat} (h : IsUnsigned x) : Signless ⟨Float.Model.pack x⟩ := by
  have hmsb := msb_pack h
  rw [BitVec.msb_eq_false_iff_two_mul_lt] at hmsb
  refine (signBit_iff _).2 ?_
  change (UnpackedFloat.pack Format.binary64 x).toNat < 2 ^ 63
  have hwidth : (2 : Nat) ^ Format.binary64.numBits = 2 ^ 64 := rfl
  omega

/-- What is read from bits without a sign has none. -/
theorem unsigned_unpack {bits : UInt64} (h : bits >>> 63 = 0) :
    IsUnsigned (UnpackedFloat.unpack Format.binary64 bits.toBitVec) := by
  rw [signBit_iff] at h
  have hsign : @unpackSign Format.binary64 bits.toBitVec = 0#1 := by
    apply BitVec.eq_of_toNat_eq
    change (bits.toNat >>> 63) % 2 = 0
    rw [Nat.shiftRight_eq_div_pow, Nat.div_eq_of_lt h]
  have hpositive : Sign.ofBitVec (@unpackSign Format.binary64 bits.toBitVec) = .positive := by
    rw [hsign]
    rfl
  unfold UnpackedFloat.unpack
  simp only [hpositive]
  split
  · split
    · rfl
    · trivial
  · split
    · split <;> rfl
    · rfl

theorem Signless.unsigned {x : Float} (h : Signless x) : IsUnsigned x.toModel.unpack :=
  unsigned_unpack h

/-! ## arithmetic -/

theorem unsigned_roundWithAccuracy (mantissa : Nat) (exponent : Int) (accuracy : Accuracy) :
    IsUnsigned (roundWithAccuracy Format.binary64 .positive mantissa exponent accuracy) := by
  unfold roundWithAccuracy
  simp only
  split <;> rfl

theorem unsigned_finite (mantissa : Nat) (exponent : Int) (hpos : 0 < mantissa) :
    IsUnsigned (.finite .positive mantissa exponent hpos) := rfl

theorem unsigned_mul {x y : UnpackedFloat} (hx : IsUnsigned x) (hy : IsUnsigned y) :
    IsUnsigned (UnpackedFloat.mul Format.binary64 x y) := by
  cases x <;> cases y <;> simp only [IsUnsigned] at hx hy <;> subst_vars <;>
    first | trivial | exact unsigned_roundWithAccuracy _ _ _

theorem unsigned_div {x y : UnpackedFloat} (hx : IsUnsigned x) (hy : IsUnsigned y) :
    IsUnsigned (UnpackedFloat.div Format.binary64 x y) := by
  cases x <;> cases y <;> simp only [IsUnsigned] at hx hy <;> subst_vars <;>
    first | trivial | exact unsigned_roundWithAccuracy _ _ _

theorem Signless.mul {x y : Float} (hx : Signless x) (hy : Signless y) : Signless (x * y) :=
  signless_of_unsigned (unsigned_mul hx.unsigned hy.unsigned)

theorem Signless.div {x y : Float} (hx : Signless x) (hy : Signless y) : Signless (x / y) :=
  signless_of_unsigned (unsigned_div hx.unsigned hy.unsigned)

theorem signless_toFloat_nat (n : UInt64) : Signless n.toFloat := by
  refine signless_of_unsigned ?_
  change IsUnsigned (UnpackedFloat.normalize Format.binary64 (n.toNat : Int) 0 .positive)
  unfold UnpackedFloat.normalize
  split
  · next hlt =>
      rw [Int.compare_eq_lt] at hlt
      omega
  · rfl
  · exact unsigned_roundWithAccuracy _ _ _

/-! ## numerals -/

theorem signless_ofBits {bits : UInt64} (h : bits >>> 63 = 0) : Signless (Float.ofBits bits) :=
  signless_of_unsigned (unsigned_unpack h)

theorem signless_powerOfTen {e : Nat} (h : e < Float.exactlyRepresentablePowersOfTen.size) :
    Signless Float.exactlyRepresentablePowersOfTen[e] := by
  have hmem := Array.getElem_mem h
  revert hmem
  generalize Float.exactlyRepresentablePowersOfTen[e] = x
  simp only [Float.exactlyRepresentablePowersOfTen, List.mem_toArray, List.mem_cons, List.not_mem_nil, or_false]
  intro hx
  repeat' obtain rfl | hx := hx
  all_goals exact signless_ofBits (by decide)

theorem unsigned_ofScientific (mantissa : Nat) (exponent : Int) :
    IsUnsigned (UnpackedFloat.ofScientific Format.binary64 mantissa exponent) := by
  unfold UnpackedFloat.ofScientific
  split_ifs
  · rfl
  · rfl
  · rfl
  · exact unsigned_mul (unsigned_finite ..) (unsigned_finite ..)
  · exact unsigned_div (unsigned_finite ..) (unsigned_finite ..)

theorem signless_ofScientific (mantissa : Nat) (negative : Bool) (exponent : Nat) :
    Signless (Float.ofScientific mantissa negative exponent) := by
  unfold Float.ofScientific
  split
  · split
    · exact (signless_toFloat_nat _).div (signless_powerOfTen _)
    · exact (signless_toFloat_nat _).mul (signless_powerOfTen _)
  · exact signless_of_unsigned (unsigned_ofScientific _ _)

/-- The double that a numeral is read as has no sign. -/
theorem signless_toFloat (n : Numeral) : Signless n.toFloat := by
  unfold Numeral.toFloat
  simp only
  split_ifs
  · exact signless_ofScientific 0 true 1
  · exact (signless_ofScientific 10 true 1).div (signless_ofScientific 0 true 1)
  · exact signless_ofScientific _ _ _
  · exact signless_ofScientific _ _ _

end ViewSync.Decimal
