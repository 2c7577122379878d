import Mathlib
import Keypad.Binary64.Rounding

/-!
# Doubles and their bits

A finite double is its magnitude with its sign (`toFloat_ofFloat`, `neg_toFloat_ofFloat`), and its
magnitude is below the one of the infinities (`ofFloat_lt_infinity`). The bits of a double fall into
a sign, an exponent and a significand, from which it is put together again
(`UnpackedFloat.pack_unpack`). The library is imported whole because no smaller module of it holds
this law.
-/

namespace Keypad.Binary64

open Float.Model Float.Model.UnpackedFloat

/-! ## The parts of a bit pattern -/

abbrev signField (bits : BitVec 64) : BitVec 1 := @unpackSign .binary64 bits

abbrev exponentField (bits : BitVec 64) : BitVec 11 := @unpackExponent .binary64 bits

/-- The significand without its leading one. -/
abbrev significandField (bits : BitVec 64) : BitVec 52 := @unpackMantissa .binary64 bits

theorem toNat_significandField (bits : BitVec 64) :
    (significandField bits).toNat = bits.toNat % 2 ^ 52 := by
  simp [significandField, unpackMantissa]

theorem toNat_exponentField (bits : BitVec 64) :
    (exponentField bits).toNat = bits.toNat / 2 ^ 52 % 2 ^ 11 := by
  simp [exponentField, unpackExponent, Nat.shiftRight_eq_div_pow]

theorem toNat_signField (bits : BitVec 64) :
    (signField bits).toNat = bits.toNat / 2 ^ 63 := by
  have bounded : bits.toNat < 2 ^ 64 := bits.isLt
  have bit : bits.toNat / 2 ^ 63 % 2 = bits.toNat / 2 ^ 63 := Nat.mod_eq_of_lt (by omega)
  simpa [signField, unpackSign, Nat.shiftRight_eq_div_pow] using bit

/-! ## The parts of a double -/

def signOf (number : Float) : Sign :=
  Sign.ofBitVec (signField number.toBits.toBitVec)

theorem signBit_iff (number : Float) : signBit number = true ↔ signOf number = .negative := by
  have field : (signField number.toBits.toBitVec).toNat = number.toBits.toNat / 2 ^ 63 :=
    toNat_signField _
  have bounded := number.toBits.toNat_lt
  rw [signBit, decide_eq_true_eq, signOf, Sign.ofBitVec]
  split
  next positive =>
    rw [positive] at field
    change 0 = _ at field
    simp only [reduceCtorEq, iff_false]
    omega
  next negative =>
    simp only [iff_true]
    by_contra small
    apply negative
    apply BitVec.eq_of_toNat_eq
    rw [field]
    change _ = 0
    omega

theorem exponentField_eq (number : Float) :
    (exponentField number.toBits.toBitVec).toNat = ofFloat number / 2 ^ 52 := by
  rw [toNat_exponentField, ofFloat]
  change number.toBits.toNat / 2 ^ 52 % 2 ^ 11 = number.toBits.toNat % 2 ^ 63 / 2 ^ 52
  omega

theorem significandField_eq (number : Float) :
    (significandField number.toBits.toBitVec).toNat = ofFloat number % 2 ^ 52 := by
  rw [toNat_significandField, ofFloat]
  change number.toBits.toNat % 2 ^ 52 = number.toBits.toNat % 2 ^ 63 % 2 ^ 52
  omega

/-! ## Finite doubles -/

theorem exponent_of_isFinite {number : Float} (finite : number.isFinite = true) :
    exponentField number.toBits.toBitVec ≠ -1#11 := by
  intro full
  change (UnpackedFloat.unpack .binary64 number.toBits.toBitVec).isFinite = true at finite
  rw [UnpackedFloat.unpack] at finite
  simp only [if_pos full] at finite
  split at finite <;> cases finite

theorem isNaN_of_isFinite {number : Float} (finite : number.isFinite = true) :
    number.isNaN = false := by
  change (UnpackedFloat.unpack .binary64 number.toBits.toBitVec).isFinite = true at finite
  change (UnpackedFloat.unpack .binary64 number.toBits.toBitVec).isNaN = false
  cases unpacked : UnpackedFloat.unpack .binary64 number.toBits.toBitVec with
  | notANumber =>
    rw [unpacked] at finite
    cases finite
  | infinity sign => rfl
  | zero sign => rfl
  | finite sign mantissa exponent positive => rfl

theorem ofFloat_lt_infinity {number : Float} (finite : number.isFinite = true) :
    ofFloat number < infinity := by
  have bounded : ofFloat number < 2 ^ 63 := Nat.mod_lt _ (Nat.two_pow_pos 63)
  have below : (exponentField number.toBits.toBitVec).toNat ≠ 2 ^ 11 - 1 :=
    fun full => exponent_of_isFinite finite (BitVec.eq_of_toNat_eq full)
  rw [exponentField_eq] at below
  simp only [infinity]
  omega

/-- What is neither finite nor NaN is one of the infinities. -/
theorem ofFloat_eq_infinity {number : Float} (ordered : number.isNaN = false)
    (infinite : number.isFinite = false) : ofFloat number = infinity := by
  change (UnpackedFloat.unpack .binary64 number.toBits.toBitVec).isNaN = false at ordered
  change (UnpackedFloat.unpack .binary64 number.toBits.toBitVec).isFinite = false at infinite
  rw [UnpackedFloat.unpack] at ordered infinite
  by_cases full : exponentField number.toBits.toBitVec = -1#11
  · simp only [if_pos full] at ordered
    split at ordered
    next empty =>
      have exponent := exponentField_eq number
      have significand := significandField_eq number
      rw [full] at exponent
      rw [show significandField number.toBits.toBitVec = 0#52 from empty] at significand
      change 2 ^ 11 - 1 = _ at exponent
      change 0 = _ at significand
      simp only [infinity]
      omega
    next => cases ordered
  · simp only [if_neg full] at infinite
    split at infinite
    · split at infinite <;> cases infinite
    · cases infinite

theorem toBits_ofBits {bits : UInt64}
    (finite : exponentField bits.toBitVec ≠ -1#11) :
    (Float.ofBits bits).toBits = bits := by
  have ordered : ¬ @isNaNBits .binary64 bits.toBitVec = true :=
    fun undefined => finite (of_decide_eq_true undefined).1
  have packed := @pack_unpack .binary64 bits.toBitVec
  rw [if_neg ordered] at packed
  exact congrArg UInt64.ofBitVec packed

theorem toBits_toFloat {magnitude : Nat} (representable : magnitude ≤ infinity) :
    (toFloat magnitude).toBits = UInt64.ofNat magnitude := by
  obtain rfl | finite := Nat.eq_or_lt_of_le representable
  · decide
  · apply toBits_ofBits
    intro full
    have exponent := congrArg BitVec.toNat full
    rw [toNat_exponentField] at exponent
    change magnitude % 2 ^ 64 / 2 ^ 52 % 2 ^ 11 = 2 ^ 11 - 1 at exponent
    simp only [infinity] at finite
    omega

theorem signBit_toFloat {magnitude : Nat} (representable : magnitude ≤ infinity) :
    signBit (toFloat magnitude) = false := by
  have small : magnitude % 2 ^ 64 < 2 ^ 63 := by
    simp only [infinity] at representable
    omega
  rw [signBit, toBits_toFloat representable, UInt64.toNat_ofNat', decide_eq_false_iff_not]
  exact Nat.not_le.mpr small

theorem ofFloat_toFloat {magnitude : Nat} (representable : magnitude ≤ infinity) :
    ofFloat (toFloat magnitude) = magnitude := by
  rw [ofFloat, toBits_toFloat representable, UInt64.toNat_ofNat']
  simp only [infinity] at representable
  omega

theorem toFloat_ofFloat {number : Float} (positive : signBit number = false) :
    toFloat (ofFloat number) = number := by
  have small : number.toBits.toNat < 2 ^ 63 := by simpa [signBit] using positive
  have same : UInt64.ofNat (ofFloat number) = number.toBits := by
    rw [ofFloat, Nat.mod_eq_of_lt small]
    exact UInt64.ofNat_toNat
  rw [toFloat, same, Float.ofBits_toBits]

theorem unpack_eq_neg {bits opposite : BitVec 64}
    (sameExponent : exponentField bits = exponentField opposite)
    (sameSignificand : significandField bits = significandField opposite)
    (signs : Sign.ofBitVec (signField bits) = -Sign.ofBitVec (signField opposite)) :
    UnpackedFloat.unpack .binary64 bits = (UnpackedFloat.unpack .binary64 opposite).neg := by
  simp only [UnpackedFloat.unpack, sameExponent, sameSignificand, signs]
  split
  · split <;> rfl
  · split
    · split <;> rfl
    · rfl

theorem neg_toFloat_ofFloat {number : Float} (finite : number.isFinite = true)
    (negative : signBit number = true) : -toFloat (ofFloat number) = number := by
  have representable := Nat.le_of_lt (ofFloat_lt_infinity finite)
  have sameExponent : exponentField number.toBits.toBitVec =
      exponentField (toFloat (ofFloat number)).toBits.toBitVec := by
    apply BitVec.eq_of_toNat_eq
    rw [exponentField_eq, exponentField_eq, ofFloat_toFloat representable]
  have sameSignificand : significandField number.toBits.toBitVec =
      significandField (toFloat (ofFloat number)).toBits.toBitVec := by
    apply BitVec.eq_of_toNat_eq
    rw [significandField_eq, significandField_eq, ofFloat_toFloat representable]
  have signs : signOf number = -signOf (toFloat (ofFloat number)) := by
    have unset : signOf (toFloat (ofFloat number)) ≠ .negative := by
      rw [ne_eq, ← signBit_iff, signBit_toFloat representable]
      exact Bool.false_ne_true
    rw [(signBit_iff number).mp negative]
    cases sign : signOf (toFloat (ofFloat number)) with
    | positive => rfl
    | negative => exact absurd sign unset
  apply Float.toBits_inj.mp
  change UInt64.ofBitVec (UnpackedFloat.pack .binary64 (UnpackedFloat.unpack .binary64
    (toFloat (ofFloat number)).toBits.toBitVec).neg) = number.toBits
  rw [← unpack_eq_neg sameExponent sameSignificand signs]
  exact congrArg UInt64.ofBitVec (pack_unpack_of_valid number.toModel.valid)

end Keypad.Binary64
