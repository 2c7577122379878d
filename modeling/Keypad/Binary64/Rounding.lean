import Mathlib.Algebra.Group.Nat.Defs
import Keypad.Binary64

/-!
# Laws of magnitudes

Values grow strictly with magnitudes (`units_lt_units`), `floor` finds the magnitude below a value
(`units_floor_le`, `lt_units_floor_succ`), and what is close to the value of a magnitude rounds to
it (`nearest_eq_of_close`).
-/

namespace Keypad.Binary64

/-- Up to `2⁵³` a magnitude is its own value. -/
theorem units_eq_self {magnitude : Nat} (small : magnitude ≤ 2 ^ 53) :
    units magnitude = magnitude := by
  simp only [units]
  rcases Nat.lt_or_ge magnitude (2 ^ 52) with subnormal | normal
  · rw [if_pos (by omega)]
    omega
  · rw [if_neg (by omega)]
    rcases Nat.lt_or_ge magnitude (2 ^ 53) with below | above
    · rw [show magnitude / 2 ^ 52 = 1 by omega,
        show magnitude % 2 ^ 52 = magnitude - 2 ^ 52 by omega]
      omega
    · rw [show magnitude / 2 ^ 52 = 2 by omega, show magnitude % 2 ^ 52 = 0 by omega]
      omega

/-- A shifted significand is scaled by a power of two. -/
theorem units_shift {significand : Nat} (normal : 2 ^ 52 ≤ significand)
    (small : significand ≤ 2 ^ 53) (shift : Nat) :
    units (shift * 2 ^ 52 + significand) = significand * 2 ^ shift := by
  simp only [units]
  rw [if_neg (by omega)]
  rcases Nat.lt_or_ge significand (2 ^ 53) with below | above
  · rw [show (shift * 2 ^ 52 + significand) / 2 ^ 52 = shift + 1 by omega,
      show (shift * 2 ^ 52 + significand) % 2 ^ 52 = significand - 2 ^ 52 by omega,
      Nat.add_sub_cancel, show 2 ^ 52 + (significand - 2 ^ 52) = significand by omega]
  · rw [show significand = 2 ^ 53 by omega,
      show (shift * 2 ^ 52 + 2 ^ 53) / 2 ^ 52 = shift + 2 by omega,
      show (shift * 2 ^ 52 + 2 ^ 53) % 2 ^ 52 = 0 by omega,
      show shift + 2 - 1 = shift + 1 by omega, Nat.pow_succ 2 shift]
    omega

/-- Every magnitude is small or a shifted significand. -/
theorem small_or_shift (magnitude : Nat) :
    magnitude < 2 ^ 52 ∨
      ∃ shift significand, 2 ^ 52 ≤ significand ∧ significand < 2 ^ 53 ∧
        magnitude = shift * 2 ^ 52 + significand := by
  rcases Nat.lt_or_ge magnitude (2 ^ 52) with subnormal | normal
  · exact .inl subnormal
  · exact .inr ⟨magnitude / 2 ^ 52 - 1, 2 ^ 52 + magnitude % 2 ^ 52, by omega, by omega, by omega⟩

theorem units_lt_units_succ (magnitude : Nat) : units magnitude < units (magnitude + 1) := by
  rcases small_or_shift magnitude with subnormal | ⟨shift, significand, normal, small, rfl⟩
  · rw [units_eq_self (by omega), units_eq_self (by omega)]
    omega
  · rw [Nat.add_assoc, units_shift normal (by omega), units_shift (by omega) (by omega)]
    exact Nat.mul_lt_mul_of_pos_right (Nat.lt_succ_self _) (Nat.two_pow_pos shift)

theorem units_lt_units {lower upper : Nat} (less : lower < upper) : units lower < units upper := by
  induction upper with
  | zero => omega
  | succ upper inductionHypothesis =>
    rcases Nat.lt_or_ge lower upper with below | above
    · exact Nat.lt_trans (inductionHypothesis below) (units_lt_units_succ upper)
    · rw [show lower = upper by omega]
      exact units_lt_units_succ upper

theorem units_le_units {lower upper : Nat} (le : lower ≤ upper) : units lower ≤ units upper := by
  rcases Nat.lt_or_eq_of_le le with less | rfl
  · exact Nat.le_of_lt (units_lt_units less)
  · exact Nat.le_refl _

/-- What `floor` shifts out leaves a significand. -/
theorem significand_bounds {count : Nat} (large : 2 ^ 53 ≤ count) :
    2 ^ 52 ≤ count / 2 ^ (count.log2 - 52) ∧ count / 2 ^ (count.log2 - 52) < 2 ^ 53 := by
  have nonzero : count ≠ 0 := by omega
  have normal : 52 ≤ count.log2 := (Nat.le_log2 nonzero).mpr (by omega)
  have lower : 2 ^ 52 * 2 ^ (count.log2 - 52) ≤ count := by
    rw [← Nat.pow_add, show 52 + (count.log2 - 52) = count.log2 by omega]
    exact Nat.log2_self_le nonzero
  have upper : count < 2 ^ 53 * 2 ^ (count.log2 - 52) := by
    rw [← Nat.pow_add, show 53 + (count.log2 - 52) = count.log2 + 1 by omega]
    exact Nat.lt_log2_self
  have positive := Nat.two_pow_pos (count.log2 - 52)
  exact ⟨(Nat.le_div_iff_mul_le positive).mpr lower, (Nat.div_lt_iff_lt_mul positive).mpr upper⟩

theorem floor_eq_self {count : Nat} (small : count < 2 ^ 53) : floor count = count := by
  have unshifted : count.log2 - 52 = 0 := by
    rcases Nat.eq_zero_or_pos count with rfl | positive
    · rfl
    · have := (Nat.log2_lt (by omega)).mpr small
      omega
  simp [floor, unshifted]

theorem units_floor_le (count : Nat) : units (floor count) ≤ count := by
  rcases Nat.lt_or_ge count (2 ^ 53) with small | large
  · rw [floor_eq_self small]
    exact Nat.le_of_eq (units_eq_self (by omega))
  · obtain ⟨normal, small⟩ := significand_bounds large
    rw [floor, units_shift normal (by omega)]
    exact Nat.div_mul_le_self _ _

theorem lt_units_floor_succ (count : Nat) : count < units (floor count + 1) := by
  rcases Nat.lt_or_ge count (2 ^ 53) with small | large
  · rw [floor_eq_self small, units_eq_self (by omega)]
    omega
  · obtain ⟨normal, small⟩ := significand_bounds large
    rw [floor, Nat.add_assoc, units_shift (by omega) (by omega)]
    exact Nat.lt_mul_of_div_lt (Nat.lt_succ_self _) (Nat.two_pow_pos _)

/-- The only magnitude with these neighbours. -/
theorem eq_floor {count magnitude : Nat} (le : units magnitude ≤ count)
    (lt : count < units (magnitude + 1)) : magnitude = floor count := by
  rcases Nat.lt_trichotomy magnitude (floor count) with below | same | above
  · have crossed : units (magnitude + 1) ≤ units (floor count) := units_le_units below
    have := units_floor_le count
    omega
  · exact same
  · have crossed : units (floor count + 1) ≤ units magnitude := units_le_units above
    have := lt_units_floor_succ count
    omega

@[simp] theorem floor_units (magnitude : Nat) : floor (units magnitude) = magnitude :=
  (eq_floor (Nat.le_refl _) (units_lt_units_succ magnitude)).symm

/-- The exact value of a magnitude rounds to it. -/
theorem nearest_units {magnitude denominator : Nat} (positive : 0 < denominator)
    (representable : magnitude ≤ infinity) :
    nearest (units magnitude * denominator) denominator = magnitude := by
  have less := Nat.mul_lt_mul_of_pos_left (units_lt_units_succ magnitude) positive
  have below : 2 * (units magnitude * denominator) <
      denominator * (units magnitude + units (magnitude + 1)) := by
    rw [Nat.mul_add, Nat.mul_comm (units magnitude)]
    omega
  simp only [nearest, Nat.mul_div_cancel _ positive, floor_units, if_pos below]
  exact Nat.min_eq_left representable

/-- A value less than half a unit away from a magnitude rounds to it. -/
theorem nearest_eq_of_close {numerator denominator magnitude : Nat}
    (representable : magnitude ≤ infinity)
    (above : 2 * (units magnitude * denominator) < 2 * numerator + denominator)
    (below : 2 * numerator < 2 * (units magnitude * denominator) + denominator) :
    nearest numerator denominator = magnitude := by
  have positive : 0 < denominator := by omega
  have next : denominator * (units magnitude + 1) ≤ denominator * units (magnitude + 1) :=
    Nat.mul_le_mul_left _ (units_lt_units_succ magnitude)
  rw [Nat.mul_add, Nat.mul_one, Nat.mul_comm _ (units magnitude)] at next
  rcases Nat.lt_or_ge numerator (units magnitude * denominator) with less | ge
  · obtain ⟨previous, rfl⟩ : ∃ previous, magnitude = previous + 1 := by
      refine ⟨magnitude - 1, ?_⟩
      rcases Nat.eq_zero_or_pos magnitude with rfl | nonzero
      · simp [units] at less
      · omega
    have step := units_lt_units_succ previous
    have quotient : numerator / denominator = units (previous + 1) - 1 := by
      apply Nat.div_eq_of_lt_le
      · rw [Nat.sub_mul, Nat.one_mul]
        omega
      · rw [show units (previous + 1) - 1 + 1 = units (previous + 1) by omega]
        exact less
    have floored : previous = floor (units (previous + 1) - 1) :=
      eq_floor (by omega) (by omega)
    have middle : denominator * (units previous + units (previous + 1)) + denominator ≤
        2 * (units (previous + 1) * denominator) := by
      have scaled := Nat.mul_le_mul_left denominator
        (show units previous + units (previous + 1) + 1 ≤ 2 * units (previous + 1) by omega)
      rwa [Nat.mul_add _ _ 1, Nat.mul_one, Nat.mul_left_comm,
        Nat.mul_comm denominator (units (previous + 1))] at scaled
    simp only [nearest, quotient, ← floored]
    generalize denominator * (units previous + units (previous + 1)) = twiceMiddle at middle
    rw [if_neg (by omega), if_pos (by omega)]
    exact Nat.min_eq_left representable
  · have quotient : numerator / denominator = units magnitude := by
      apply Nat.div_eq_of_lt_le ge
      rw [Nat.succ_mul]
      omega
    have middle : 2 * numerator < denominator * (units magnitude + units (magnitude + 1)) := by
      rw [Nat.mul_add, Nat.mul_comm _ (units magnitude)]
      omega
    simp only [nearest, quotient, floor_units, if_pos middle]
    exact Nat.min_eq_left representable

end Keypad.Binary64
