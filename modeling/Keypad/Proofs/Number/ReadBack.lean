import Keypad.Decimal.ReadBack
import Keypad.Number
import Keypad.Proofs.Binary64.Bits
import Keypad.Proofs.Token.Reading

/-!
# Reading numbers back

The text of a finite number is the numeral of its magnitude, with a sign in front of it if the
number is negative. The numeral is made of digits and at most one point, and reads as the magnitude.
-/

namespace Keypad.Decimal

theorem numeral_ne_nil (decimal : Decimal) : decimal.numeral ≠ [] := by
  simp only [numeral]
  split
  · exact Nat.toDigits_ne_nil
  · simp

theorem isNumeralChar_of_mem_numeral {decimal : Decimal} {c : Char} (member : c ∈ decimal.numeral) :
    isNumeralChar c = true := by
  simp only [numeral] at member
  split at member
  · exact isNumeralChar_of_isDigit (isDigit_of_mem_toDigits member)
  · obtain whole | point := List.mem_append.mp member
    · exact isNumeralChar_of_isDigit (isDigit_of_mem_toDigits whole)
    · obtain rfl | fraction := List.mem_cons.mp point
      · decide
      · exact isNumeralChar_of_isDigit (isDigit_of_mem_fractionDigits fraction)

end Keypad.Decimal

namespace Keypad.Number

theorem ofNumeral?_shortest {magnitude : Nat} (finite : magnitude < Binary64.infinity) :
    ofNumeral? (Decimal.shortest magnitude).numeral = some (Binary64.toFloat magnitude) := by
  rw [ofNumeral?, Decimal.ofNumeral?_numeral, Option.map_some,
    Decimal.magnitude_shortest (Nat.le_of_lt finite)]

theorem reading_shortest {magnitude : Nat} (finite : magnitude < Binary64.infinity) :
    Lexeme.reading (Decimal.shortest magnitude).numeral =
      .ok [.number (Binary64.toFloat magnitude)] :=
  Lexeme.reading_numeral (Decimal.numeral_ne_nil _)
    (fun _ member => Decimal.isNumeralChar_of_mem_numeral member) (ofNumeral?_shortest finite)

/-- Numerals have no sign. -/
theorem signBit_of_ofNumeral? {run : List Char} {value : Float}
    (valued : ofNumeral? run = some value) : Binary64.signBit value = false := by
  obtain ⟨decimal, -, rfl⟩ := Option.map_eq_some_iff.mp valued
  exact Binary64.signBit_toFloat (Nat.min_le_right _ _)

namespace Style

theorem write_of_positive (style : Style) {number : Float} (finite : number.isFinite = true)
    (positive : Binary64.signBit number = false) :
    (style.write number).toList = (Decimal.shortest (Binary64.ofFloat number)).numeral := by
  have below := Binary64.ofFloat_lt_infinity finite
  rw [write, Binary64.isNaN_of_isFinite finite, positive]
  simp only [Bool.false_eq_true, if_false, writeMagnitude, if_neg (Nat.ne_of_lt below),
    String.toList_ofList]

theorem write_of_negative (style : Style) {number : Float} (finite : number.isFinite = true)
    (negative : Binary64.signBit number = true) (nonzero : Binary64.ofFloat number ≠ 0) :
    (style.write number).toList = '-' :: (Decimal.shortest (Binary64.ofFloat number)).numeral := by
  have below := Binary64.ofFloat_lt_infinity finite
  rw [write, Binary64.isNaN_of_isFinite finite, negative]
  simp [writeMagnitude, nonzero, Nat.ne_of_lt below]

end Style

theorem ofNumeral?_write (style : Style) {number : Float} (finite : number.isFinite = true)
    (positive : Binary64.signBit number = false) :
    ofNumeral? (style.write number).toList = some number := by
  rw [style.write_of_positive finite positive,
    ofNumeral?_shortest (Binary64.ofFloat_lt_infinity finite),
    Binary64.toFloat_ofFloat positive]

theorem reading_write_of_positive (style : Style) {number : Float}
    (finite : number.isFinite = true) (positive : Binary64.signBit number = false) :
    Lexeme.reading (style.write number).toList = .ok [.number number] := by
  rw [style.write_of_positive finite positive,
    reading_shortest (Binary64.ofFloat_lt_infinity finite),
    Binary64.toFloat_ofFloat positive]

end Keypad.Number
