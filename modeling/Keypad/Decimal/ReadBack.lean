import Mathlib.Algebra.Group.Nat.Defs
import Keypad.Binary64.Rounding
import Keypad.Decimal.Shortest

/-!
# Reading shortest decimals

The shortest decimal of a finite magnitude reads back to it (`magnitude_shortest`), and its numeral
reads as that decimal (`ofNumeral?_numeral`).
-/

namespace Keypad.Decimal

/-! ## The value -/

/-- A step of the finest grid is shorter than a unit. -/
theorem unitsPerOne_lt_finest : Binary64.unitsPerOne < 10 ^ finestPlaces := by
  decide +kernel

theorem unitsPerOne_pos : 0 < Binary64.unitsPerOne := by
  decide +kernel

theorem magnitude_finest {magnitude : Nat} (representable : magnitude ≤ Binary64.infinity) :
    (finest magnitude).magnitude = magnitude := by
  have short := unitsPerOne_lt_finest
  have positive := unitsPerOne_pos
  simp only [finest, onGrid, Decimal.magnitude, Nat.zero_sub, Nat.pow_zero, Nat.mul_one,
    Nat.sub_zero, finestSteps]
  generalize 10 ^ finestPlaces = scale at short
  generalize Binary64.unitsPerOne = unit at short positive
  have divided := Nat.div_add_mod (2 * (Binary64.units magnitude * scale) + unit) (2 * unit)
  have remainder := Nat.mod_lt (2 * (Binary64.units magnitude * scale) + unit)
    (show 2 * unit > 0 by omega)
  rw [Nat.mul_comm, ← Nat.mul_assoc, Nat.mul_comm _ 2, Nat.mul_assoc] at divided
  exact Binary64.nearest_eq_of_close representable (by omega) (by omega)

theorem magnitude_shortest {magnitude : Nat} (representable : magnitude ≤ Binary64.infinity) :
    (shortest magnitude).magnitude = magnitude := by
  unfold shortest
  split
  next zero => simp [zero, Decimal.magnitude, Binary64.nearest, Binary64.floor, Binary64.units]
  next =>
    cases found : (grids magnitude).findSome? (neighbour? magnitude) with
    | none => exact magnitude_finest representable
    | some decimal =>
      obtain ⟨grid, -, here⟩ := List.exists_of_findSome?_eq_some found
      exact magnitude_of_neighbour? here

/-! ## The numeral -/

theorem length_fractionDigits {places fraction : Nat} (small : fraction < 10 ^ places)
    (positive : 0 < places) : (fractionDigits places fraction).length = places := by
  have fits := (Nat.length_toDigits_le_iff (b := 10) (by decide) positive).mpr small
  simp only [fractionDigits, List.length_append, List.length_replicate]
  omega

theorem ofDigitChars_fractionDigits (places fraction : Nat) :
    Nat.ofDigitChars 10 (fractionDigits places fraction) 0 = fraction := by
  rw [fractionDigits, Nat.ofDigitChars_append, Nat.ofDigitChars_replicate_zero, Nat.mul_zero,
    Nat.ofDigitChars_ten_toDigits]

theorem isDigit_of_mem_toDigits {n : Nat} {c : Char} (member : c ∈ Nat.toDigits 10 n) :
    c.isDigit = true :=
  Nat.isDigit_of_mem_toDigits (by decide) (by decide) member

theorem isDigit_of_mem_fractionDigits {places fraction : Nat} {c : Char}
    (member : c ∈ fractionDigits places fraction) : c.isDigit = true := by
  simp only [fractionDigits, List.mem_append, List.mem_replicate] at member
  rcases member with ⟨-, rfl⟩ | digit
  · decide
  · exact isDigit_of_mem_toDigits digit

theorem point_not_mem {run : List Char} (digits : ∀ c ∈ run, c.isDigit = true) : '.' ∉ run :=
  fun member => absurd (digits '.' member) (by decide)

theorem all_isNumeralChar {run : List Char} (digits : ∀ c ∈ run, c.isDigit = true) :
    run.all isNumeralChar = true := by
  simp only [List.all_eq_true, isNumeralChar, Bool.or_eq_true]
  exact fun c member => .inl (digits c member)

theorem any_isDigit {run : List Char} (digits : ∀ c ∈ run, c.isDigit = true)
    (nonempty : run ≠ []) : run.any Char.isDigit = true :=
  have member := List.head_mem nonempty
  List.any_eq_true.mpr ⟨run.head nonempty, member, digits _ member⟩

theorem dropWhile_digits {run : List Char} (digits : ∀ c ∈ run, c.isDigit = true)
    (rest : List Char) : (run ++ rest).dropWhile (· != '.') = rest.dropWhile (· != '.') := by
  apply List.dropWhile_append_of_pos
  intro c member
  simp only [bne_iff_ne, ne_eq]
  rintro rfl
  exact point_not_mem digits member

/-- A numeral without a point. -/
theorem ofNumeral?_whole {whole : List Char} (digits : ∀ c ∈ whole, c.isDigit = true)
    (nonempty : whole ≠ []) : ofNumeral? whole = some ⟨Nat.ofDigitChars 10 whole 0, 0⟩ := by
  have count : whole.count '.' = 0 := List.count_eq_zero.mpr (point_not_mem digits)
  have dropped := dropWhile_digits digits []
  rw [List.append_nil] at dropped
  simp [ofNumeral?, isNumeral, all_isNumeralChar digits, any_isDigit digits nonempty, count,
    List.filter_eq_self.mpr digits, dropped]

/-- A numeral with a point. -/
theorem ofNumeral?_point {whole fraction : List Char} (wholeDigits : ∀ c ∈ whole, c.isDigit = true)
    (fractionDigits : ∀ c ∈ fraction, c.isDigit = true) (nonempty : whole ≠ []) :
    ofNumeral? (whole ++ '.' :: fraction) =
      some ⟨Nat.ofDigitChars 10 (whole ++ fraction) 0, fraction.length⟩ := by
  have wholeCount : whole.count '.' = 0 := List.count_eq_zero.mpr (point_not_mem wholeDigits)
  have fractionCount : fraction.count '.' = 0 :=
    List.count_eq_zero.mpr (point_not_mem fractionDigits)
  have numeral : isNumeral (whole ++ '.' :: fraction) = true := by
    simp [isNumeral, all_isNumeralChar wholeDigits, all_isNumeralChar fractionDigits,
      any_isDigit wholeDigits nonempty, wholeCount, fractionCount,
      show isNumeralChar '.' = true by decide]
  simp [ofNumeral?, numeral, List.filter_eq_self.mpr wholeDigits,
    List.filter_eq_self.mpr fractionDigits, dropWhile_digits wholeDigits]

theorem ofNumeral?_numeral (decimal : Decimal) : ofNumeral? decimal.numeral = some decimal := by
  obtain ⟨coefficient, places⟩ := decimal
  have wholeDigits : ∀ c ∈ Nat.toDigits 10 (coefficient / 10 ^ places), c.isDigit = true :=
    fun c member => isDigit_of_mem_toDigits member
  simp only [numeral]
  split
  next unplaced =>
    subst unplaced
    rw [ofNumeral?_whole wholeDigits Nat.toDigits_ne_nil, Nat.ofDigitChars_ten_toDigits,
      Nat.pow_zero, Nat.div_one]
  next placed =>
    have length := length_fractionDigits (Nat.mod_lt coefficient (Nat.pow_pos (by decide)))
      (Nat.pos_of_ne_zero placed)
    rw [ofNumeral?_point wholeDigits (fun c member => isDigit_of_mem_fractionDigits member)
      Nat.toDigits_ne_nil, Nat.ofDigitChars_append, Nat.ofDigitChars_ten_toDigits,
      Nat.ofDigitChars_eq_ofDigitChars_zero, ofDigitChars_fractionDigits, length, Nat.div_add_mod]

end Keypad.Decimal
