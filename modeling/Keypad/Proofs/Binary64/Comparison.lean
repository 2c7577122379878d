import Mathlib.Algebra.Order.Field.Power
import Mathlib.Algebra.Order.Field.Rat
import Keypad.Proofs.Binary64.Bits

/-!
# Values of doubles

A double is made of a sign, a significand and an exponent, which decide its exact value and how it
compares to others. The magnitude counts units of the value (`abs_value`). Two doubles are equal as
numbers if they are the same or both are zeros (`beq_iff`).
-/

namespace Keypad.Binary64

open Float.Model Float.Model.UnpackedFloat

abbrev parts (number : Float) : UnpackedFloat :=
  number.toModel.unpack

/-- The exact value of a finite double. The others, which have none, are given zero. -/
def value (number : Float) : ℚ :=
  match parts number with
  | .finite sign significand exponent _ => sign.apply significand * 2 ^ exponent
  | _ => 0

def IsIntegral (number : Float) : Prop :=
  ∃ integer : ℤ, value number = integer

/-! ## From bits to parts -/

theorem parts_eq (number : Float) :
    parts number = UnpackedFloat.unpack .binary64 number.toBits.toBitVec :=
  rfl

theorem parts_of_zero {number : Float} (zero : ofFloat number = 0) :
    parts number = .zero (signOf number) := by
  have exponent : exponentField number.toBits.toBitVec = 0#11 := by
    apply BitVec.eq_of_toNat_eq
    rw [exponentField_eq, zero]
    rfl
  have significand : significandField number.toBits.toBitVec = 0#52 := by
    apply BitVec.eq_of_toNat_eq
    rw [significandField_eq, zero]
    rfl
  have finite : exponentField number.toBits.toBitVec ≠ -1#11 := by
    rw [exponent]
    decide
  rw [parts_eq]
  simp only [UnpackedFloat.unpack]
  rw [if_neg finite, if_pos exponent, dif_pos significand]
  rfl

/-! ## Values -/

/-- The exponent is given by an equation, so that nothing tries to write the power out. -/
theorem exists_unitsPerOne_eq : ∃ exponent, exponent = 1074 ∧ unitsPerOne = 2 ^ exponent :=
  ⟨1074, rfl, by decide +kernel⟩

theorem cast_two_pow (exponent : ℕ) : ((2 ^ exponent : ℕ) : ℚ) = 2 ^ (exponent : ℤ) := by
  rw [Nat.cast_pow, Nat.cast_ofNat, zpow_natCast]

theorem cast_unitsPerOne : (unitsPerOne : ℚ) = 2 ^ (1074 : ℤ) := by
  obtain ⟨exponent, isExponent, unit⟩ := exists_unitsPerOne_eq
  rw [unit, cast_two_pow, isExponent, Nat.cast_ofNat]

theorem units_of_subnormal {magnitude : Nat} (subnormal : magnitude / 2 ^ 52 = 0) :
    units magnitude = magnitude % 2 ^ 52 := by
  simp only [units]
  rw [if_pos subnormal]

theorem units_of_normal {magnitude exponent : Nat} (normal : magnitude / 2 ^ 52 = exponent + 1) :
    units magnitude = (2 ^ 52 + magnitude % 2 ^ 52) * 2 ^ exponent := by
  simp only [units]
  rw [if_neg (by omega), normal, Nat.add_sub_cancel]

theorem parts_of_subnormal {number : Float} (subnormal : ofFloat number / 2 ^ 52 = 0)
    (nonzero : ofFloat number ≠ 0) :
    ∃ positive : 0 < ofFloat number % 2 ^ 52,
      parts number = .finite (signOf number) (ofFloat number % 2 ^ 52) (-1074) positive := by
  have significandIs := significandField_eq number
  have exponent : exponentField number.toBits.toBitVec = 0#11 := by
    apply BitVec.eq_of_toNat_eq
    rw [exponentField_eq, subnormal]
    rfl
  have finite : exponentField number.toBits.toBitVec ≠ -1#11 := by
    rw [exponent]
    decide
  have significand : significandField number.toBits.toBitVec ≠ 0#52 := by
    intro zero
    rw [zero] at significandIs
    change 0 = _ at significandIs
    omega
  have least : ((exponentField number.toBits.toBitVec).toNat : ℤ) - 1075 + 1 = -1074 := by
    rw [exponent]
    rfl
  refine ⟨by omega, ?_⟩
  rw [parts_eq]
  simp only [UnpackedFloat.unpack]
  rw [if_neg finite, if_pos exponent, dif_neg significand, UnpackedFloat.finite.injEq]
  exact ⟨rfl, significandIs, least⟩

/-- A normal number has a leading one in front of its significand field. -/
theorem parts_of_normal {number : Float} (finite : number.isFinite = true) {exponent : Nat}
    (normal : ofFloat number / 2 ^ 52 = exponent + 1) :
    ∃ positive : 0 < 2 ^ 52 + ofFloat number % 2 ^ 52,
      parts number =
        .finite (signOf number) (2 ^ 52 + ofFloat number % 2 ^ 52) (exponent - 1074) positive := by
  have biased := (exponentField_eq number).trans normal
  have nonzero : exponentField number.toBits.toBitVec ≠ 0#11 := by
    intro zero
    rw [zero] at biased
    cases biased
  have leading : (1#1 ++ significandField number.toBits.toBitVec).toNat =
      2 ^ 52 + ofFloat number % 2 ^ 52 := by
    rw [BitVec.toNat_append, ← Nat.shiftLeft_add_eq_or_of_lt (BitVec.isLt _), significandField_eq]
    rfl
  have unbiased : ((exponentField number.toBits.toBitVec).toNat : ℤ) - 1075 = exponent - 1074 := by
    omega
  refine ⟨by omega, ?_⟩
  rw [parts_eq]
  simp only [UnpackedFloat.unpack]
  rw [if_neg (exponent_of_isFinite finite), if_neg nonzero, UnpackedFloat.finite.injEq]
  exact ⟨rfl, leading, unbiased⟩

/-- The significand and the exponent of a finite number count its units. -/
theorem parts_of_finite {number : Float} (finite : number.isFinite = true)
    (nonzero : ofFloat number ≠ 0) :
    ∃ significand exponent, ∃ positive : 0 < significand,
      parts number = .finite (signOf number) significand exponent positive ∧
        (significand : ℚ) * 2 ^ exponent = units (ofFloat number) / unitsPerOne := by
  cases field : ofFloat number / 2 ^ 52 with
  | zero =>
    obtain ⟨positive, made⟩ := parts_of_subnormal field nonzero
    refine ⟨_, _, positive, made, ?_⟩
    rw [units_of_subnormal field, cast_unitsPerOne, zpow_neg, ← div_eq_mul_inv]
  | succ exponent =>
    obtain ⟨positive, made⟩ := parts_of_normal finite field
    refine ⟨_, _, positive, made, ?_⟩
    rw [units_of_normal field, Nat.cast_mul, cast_two_pow, cast_unitsPerOne,
      zpow_sub₀ two_ne_zero, mul_div_assoc]

theorem abs_apply (sign : Sign) (significand : ℕ) :
    |(sign.apply significand : ℚ)| = significand := by
  cases sign <;> simp [Sign.apply]

/-- Apart from its sign, the value of a finite double is what its magnitude counts. -/
theorem abs_value {number : Float} (finite : number.isFinite = true) :
    |value number| = units (ofFloat number) / unitsPerOne := by
  by_cases zero : ofFloat number = 0
  · have nothing : units 0 = 0 := rfl
    rw [value, parts_of_zero zero, zero, nothing, Nat.cast_zero, zero_div]
    exact abs_zero
  · obtain ⟨significand, exponent, positive, made, counted⟩ := parts_of_finite finite zero
    rw [value, made]
    change |(_ : ℚ) * _| = _
    rw [abs_mul, abs_apply, abs_of_pos (zpow_pos two_pos exponent), counted]

theorem isIntegral_iff {number : Float} (finite : number.isFinite = true) :
    IsIntegral number ↔ unitsPerOne ∣ units (ofFloat number) := by
  have counted := abs_value finite
  have nonzero : (unitsPerOne : ℚ) ≠ 0 := by
    rw [cast_unitsPerOne]
    exact zpow_ne_zero _ two_ne_zero
  constructor
  · rintro ⟨integer, same⟩
    rw [same, eq_div_iff nonzero, ← Int.cast_abs, Int.abs_eq_natAbs] at counted
    refine ⟨integer.natAbs, ?_⟩
    rw [mul_comm]
    exact_mod_cast counted.symm
  · rintro ⟨count, multiple⟩
    rw [multiple, Nat.cast_mul, mul_div_cancel_left₀ _ nonzero] at counted
    obtain positive | negative := eq_or_eq_neg_of_abs_eq counted
    · exact ⟨count, positive⟩
    · exact ⟨-count, by rw [negative, Int.cast_neg, Int.cast_natCast]⟩

/-! ## Comparing with zero -/

theorem lt_zero_iff {number : Float} (finite : number.isFinite = true) :
    number < 0 ↔ signBit number = true ∧ ofFloat number ≠ 0 := by
  have compared : number < 0 ↔
      (parts number).compare (.zero .positive) = some .lt := by
    change decide ((parts number).compare (.zero .positive) == some .lt) = true ↔ _
    rw [decide_eq_true_eq, beq_iff_eq]
  rw [compared, signBit_iff]
  by_cases zero : ofFloat number = 0
  · rw [parts_of_zero zero]
    simp [UnpackedFloat.compare, zero]
  · obtain ⟨significand, exponent, positive, made, -⟩ := parts_of_finite finite zero
    rw [made]
    cases signOf number <;> simp [UnpackedFloat.compare, zero]

/-! ## Equality -/

theorem isFinite_of_zero {number : Float} (zero : ofFloat number = 0) : number.isFinite = true := by
  change (parts number).isFinite = true
  rw [parts_of_zero zero]
  rfl

/-- A double is known from its sign and its magnitude. -/
theorem eq_of_ofFloat_eq {number other : Float} (sign : signBit number = signBit other)
    (magnitude : ofFloat number = ofFloat other) : number = other := by
  have bounded := number.toBits.toNat_lt
  have otherBounded := other.toBits.toNat_lt
  rw [signBit, signBit, decide_eq_decide] at sign
  rw [ofFloat, ofFloat] at magnitude
  apply Float.toBits_inj.mp
  apply UInt64.toNat_inj.mp
  omega

theorem ofFloat_eq_zero_iff (number : Float) : ofFloat number = 0 ↔ number = 0 ∨ number = -0 := by
  constructor
  · intro zero
    cases sign : signBit number with
    | false => exact .inl (eq_of_ofFloat_eq (sign.trans (by decide)) (zero.trans (by decide)))
    | true => exact .inr (eq_of_ofFloat_eq (sign.trans (by decide)) (zero.trans (by decide)))
  · rintro (rfl | rfl) <;> decide

/-- Equal numbers are the same double, unless they are zeros. NaN is not equal to itself. -/
theorem beq_iff (number other : Float) :
    (number == other) = true ↔
      number.isNaN = false ∧ (number = other ∨ ofFloat number = 0 ∧ ofFloat other = 0) := by
  rw [Float.beq_iff_ne_nan_and_eq, Float.isNaN_eq_decide_eq_nan, decide_eq_false_iff_not,
    ofFloat_eq_zero_iff, ofFloat_eq_zero_iff]
  constructor
  · rintro ⟨ordered, -, rfl | ⟨zero, otherZero⟩ | ⟨zero, otherZero⟩⟩
    · exact ⟨ordered, .inl rfl⟩
    · exact ⟨ordered, .inr ⟨.inl zero, .inr otherZero⟩⟩
    · exact ⟨ordered, .inr ⟨.inr zero, .inl otherZero⟩⟩
  · rintro ⟨ordered, rfl | ⟨rfl | rfl, rfl | rfl⟩⟩
    · exact ⟨ordered, ordered, .inl rfl⟩
    all_goals decide

end Keypad.Binary64
