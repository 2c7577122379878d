import Keypad.Decimal.ReadBack
import Keypad.Proofs.Binary64.Comparison

/-!
# Places of shortest decimals

The shortest decimal of a number has digits behind the point exactly if the number is no integer
(`places_shortest_eq_zero_iff`). An integer is found on the grid whose steps are ones at the latest,
and what is found on this grid or a coarser one reads as an integer, because integers round to
integers (`dvd_units_nearest`).
-/

namespace Keypad.Binary64

/-! ## Integers among the magnitudes -/

/-- From `2⁵²` on all values are integers. -/
theorem dvd_units {magnitude : Nat} (large : 1075 * 2 ^ 52 ≤ magnitude) :
    unitsPerOne ∣ units magnitude := by
  obtain ⟨exponent, normal⟩ : ∃ exponent, magnitude / 2 ^ 52 = exponent + 1 :=
    Nat.exists_eq_succ_of_ne_zero (by omega)
  obtain ⟨scale, isScale, unit⟩ := exists_unitsPerOne_eq
  rw [units_of_normal normal, unit]
  exact Dvd.dvd.mul_left (Nat.pow_dvd_pow 2 (by omega)) _

/-- Every integer below `2⁵²` is the value of a magnitude. -/
theorem exists_units_eq {count : Nat} (small : count < 2 ^ 52) :
    ∃ magnitude ≤ infinity, units magnitude = count * unitsPerOne := by
  obtain rfl | positive := Nat.eq_zero_or_pos count
  · exact ⟨0, Nat.zero_le _, (Nat.zero_mul _).symm⟩
  · -- The significand is the integer, shifted until it has its leading one.
    have short : count.log2 < 52 := (Nat.log2_lt (by omega)).mpr small
    have lower : 2 ^ 52 ≤ count * 2 ^ (52 - count.log2) := by
      calc 2 ^ 52 = 2 ^ count.log2 * 2 ^ (52 - count.log2) := by
            rw [← Nat.pow_add, Nat.add_sub_cancel' short.le]
        _ ≤ count * 2 ^ (52 - count.log2) :=
            Nat.mul_le_mul_right _ (Nat.log2_self_le (by omega))
    have upper : count * 2 ^ (52 - count.log2) < 2 ^ 53 := by
      calc count * 2 ^ (52 - count.log2) < 2 ^ (count.log2 + 1) * 2 ^ (52 - count.log2) :=
            Nat.mul_lt_mul_of_pos_right Nat.lt_log2_self (Nat.two_pow_pos _)
        _ = 2 ^ 53 := by
            rw [← Nat.pow_add]
            congr 1
            omega
    refine ⟨(count.log2 + 1022) * 2 ^ 52 + count * 2 ^ (52 - count.log2), ?_, ?_⟩
    · simp only [infinity]
      omega
    · obtain ⟨scale, isScale, unit⟩ := exists_unitsPerOne_eq
      have exponent : 52 - count.log2 + (count.log2 + 1022) = scale := by omega
      rw [units_shift lower upper.le, Nat.mul_assoc, ← Nat.pow_add, exponent, unit]

theorem le_nearest {count : Nat} (large : 2 ^ 52 ≤ count) :
    1075 * 2 ^ 52 ≤ nearest (count * unitsPerOne) 1 := by
  have least : units (1074 * 2 ^ 52 + 2 ^ 52) = 2 ^ 52 * unitsPerOne := by
    obtain ⟨scale, isScale, unit⟩ := exists_unitsPerOne_eq
    rw [units_shift (Nat.le_refl _) (by decide), unit, isScale]
  have reached : 1075 * 2 ^ 52 ≤ floor (count * unitsPerOne) := by
    by_contra below
    have above := lt_units_floor_succ (count * unitsPerOne)
    have ordered : units (floor (count * unitsPerOne) + 1) ≤ units (1074 * 2 ^ 52 + 2 ^ 52) :=
      units_le_units (by omega)
    have scaled : 2 ^ 52 * unitsPerOne ≤ count * unitsPerOne := Nat.mul_le_mul_right _ large
    omega
  have finite : 1075 * 2 ^ 52 ≤ infinity := by decide
  simp only [nearest, Nat.div_one]
  generalize floor (count * unitsPerOne) = below at reached
  apply Nat.le_min.mpr
  refine ⟨?_, finite⟩
  split
  · exact reached
  · split <;> omega

/-- Integers round to integers. -/
theorem dvd_units_nearest (count : Nat) : unitsPerOne ∣ units (nearest (count * unitsPerOne) 1) := by
  obtain small | large := Nat.lt_or_ge count (2 ^ 52)
  · obtain ⟨magnitude, representable, exact⟩ := exists_units_eq small
    have rounded := nearest_units Nat.one_pos representable
    rw [Nat.mul_one, exact] at rounded
    rw [rounded, exact]
    exact Dvd.intro_left count rfl
  · exact dvd_units (le_nearest large)

end Keypad.Binary64

namespace Keypad.Decimal

open Binary64 (infinity units unitsPerOne)

/-! ## Grids -/

theorem onGrid_of_neighbour? {magnitude grid : Nat} {decimal : Decimal}
    (found : neighbour? magnitude grid = some decimal) :
    ∃ multiple, decimal = onGrid grid multiple := by
  simp only [neighbour?] at found
  split at found
  · split at found <;> exact ⟨_, (Option.some.inj found).symm⟩
  · split at found
    · exact ⟨_, (Option.some.inj found).symm⟩
    · cases found

/-- The grids are tried from the coarsest one on. -/
theorem grids_descending (magnitude : Nat) : (grids magnitude).Pairwise (· > ·) := by
  rw [grids, List.pairwise_reverse]
  exact List.pairwise_lt_range'

theorem magnitude_whole (coefficient : Nat) :
    (⟨coefficient, 0⟩ : Decimal).magnitude = Binary64.nearest (coefficient * unitsPerOne) 1 := by
  rw [Decimal.magnitude, Nat.pow_zero]

/-- An integer is on the grid whose steps are ones. -/
theorem exists_neighbour?_of_dvd {magnitude : Nat} (representable : magnitude ≤ infinity)
    (integral : unitsPerOne ∣ units magnitude) :
    ∃ decimal, neighbour? magnitude finestPlaces = some decimal := by
  obtain ⟨count, exact⟩ := integral
  have multiple : finestSteps magnitude / (unitsPerOne * 10 ^ finestPlaces) = count := by
    rw [finestSteps, Nat.mul_div_mul_right _ _ (Nat.pow_pos (by decide)), exact,
      Nat.mul_div_cancel_left _ unitsPerOne_pos]
  have reads : (onGrid finestPlaces count).magnitude = magnitude := by
    have rounded := Binary64.nearest_units Nat.one_pos representable
    rw [Nat.mul_one, exact, Nat.mul_comm] at rounded
    rw [onGrid, Nat.sub_self, Nat.pow_zero, Nat.mul_one, magnitude_whole, rounded]
  simp only [neighbour?]
  rw [multiple, if_pos reads]
  split <;> exact ⟨_, rfl⟩

theorem finestPlaces_mem_grids {magnitude : Nat} (nonzero : magnitude ≠ 0)
    (integral : unitsPerOne ∣ units magnitude) : finestPlaces ∈ grids magnitude := by
  obtain ⟨count, exact⟩ := integral
  have positive : 0 < count := by
    have value := Binary64.units_lt_units (Nat.pos_of_ne_zero nonzero)
    rw [exact] at value
    exact Nat.pos_of_mul_pos_left (Nat.zero_lt_of_lt value)
  have steps : finestSteps magnitude / unitsPerOne = count * 10 ^ finestPlaces := by
    rw [finestSteps, exact, Nat.mul_assoc, Nat.mul_div_cancel_left _ unitsPerOne_pos]
  have long : finestPlaces < (Nat.toDigits 10 (count * 10 ^ finestPlaces)).length := by
    by_contra short
    have small := (Nat.length_toDigits_le_iff (b := 10) (by decide) (by decide)).mp
      (Nat.not_lt.mp short)
    exact absurd small (Nat.not_lt.mpr (Nat.le_mul_of_pos_left _ positive))
  simp only [grids, List.mem_reverse, List.mem_range'_1, steps]
  exact ⟨by decide, by omega⟩

/-- What is found for an integer is on the grid whose steps are ones, or on a coarser one. -/
theorem finestPlaces_le_of_found {magnitude : Nat} (nonzero : magnitude ≠ 0)
    (representable : magnitude ≤ infinity) (integral : unitsPerOne ∣ units magnitude) :
    ∃ decimal multiple grid, finestPlaces ≤ grid ∧ decimal = onGrid grid multiple ∧
      (grids magnitude).findSome? (neighbour? magnitude) = some decimal := by
  have member := finestPlaces_mem_grids nonzero integral
  obtain ⟨whole, here⟩ := exists_neighbour?_of_dvd representable integral
  obtain ⟨decimal, found⟩ : ∃ decimal,
      (grids magnitude).findSome? (neighbour? magnitude) = some decimal := by
    rw [← Option.isSome_iff_exists, List.findSome?_isSome_iff]
    exact ⟨finestPlaces, member, by rw [here]; rfl⟩
  obtain ⟨coarser, grid, finer, cut, foundHere, missed⟩ := List.findSome?_eq_some_iff.mp found
  obtain ⟨multiple, rfl⟩ := onGrid_of_neighbour? foundHere
  refine ⟨_, multiple, grid, ?_, rfl, found⟩
  have descending := grids_descending magnitude
  rw [cut] at member descending
  obtain before | behind := List.mem_append.mp member
  · rw [missed _ before] at here
    cases here
  · obtain rfl | later := List.mem_cons.mp behind
    · exact Nat.le_refl _
    · exact (List.rel_of_pairwise_cons (List.pairwise_append.mp descending).2.1 later).le

theorem places_shortest_eq_zero_iff {magnitude : Nat} (representable : magnitude ≤ infinity) :
    (shortest magnitude).places = 0 ↔ unitsPerOne ∣ units magnitude := by
  constructor
  · intro whole
    have reads := magnitude_shortest representable
    generalize shortest magnitude = decimal at whole reads
    obtain ⟨coefficient, places⟩ := decimal
    cases whole
    rw [← reads, magnitude_whole]
    exact Binary64.dvd_units_nearest coefficient
  · intro integral
    rw [shortest]
    split
    · rfl
    · next nonzero =>
      obtain ⟨decimal, multiple, grid, coarse, rfl, found⟩ :=
        finestPlaces_le_of_found nonzero representable integral
      rw [found]
      exact Nat.sub_eq_zero_of_le coarse

end Keypad.Decimal
