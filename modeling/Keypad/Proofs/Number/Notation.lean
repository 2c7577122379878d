import Keypad.Proofs.Binary64.Comparison
import Keypad.Proofs.Canonical.Local
import Keypad.Proofs.Decimal.Places
import Keypad.Proofs.Number.ReadBack

/-!
# The notation of finite numbers

The display shows a finite number as the shortest decimal of its magnitude, behind a `-` if the number
is below zero (`toList_write`). The decimal is written in plain notation, with a point exactly if the
number is no integer, and the text is canonical as it stands (`plain_write`, `point_mem_write`,
`canonicalChars_write`).
-/

namespace Keypad

/-! ## Plain notation -/

/-- Digits, with a point and digits behind them or not. -/
inductive Decimal.Unsigned : List Char → Prop where
  | whole {digits : List Char} : digits ≠ [] → (∀ c ∈ digits, c.isDigit = true) → Unsigned digits
  | pointed {digits fraction : List Char} : digits ≠ [] → (∀ c ∈ digits, c.isDigit = true) →
      fraction ≠ [] → (∀ c ∈ fraction, c.isDigit = true) → Unsigned (digits ++ '.' :: fraction)

/-- A decimal without an exponent, with a sign in front of it or not. -/
inductive Decimal.Plain : List Char → Prop where
  | unsigned {text : List Char} : Unsigned text → Plain text
  | negative {text : List Char} : Unsigned text → Plain ('-' :: text)

namespace Decimal

theorem fractionDigits_ne_nil (places fraction : Nat) : fractionDigits places fraction ≠ [] := by
  rw [fractionDigits]
  exact List.append_ne_nil_of_right_ne_nil _ Nat.toDigits_ne_nil

theorem unsigned_numeral (decimal : Decimal) : Unsigned decimal.numeral := by
  simp only [numeral]
  split
  · exact .whole Nat.toDigits_ne_nil fun c member => isDigit_of_mem_toDigits member
  · exact .pointed Nat.toDigits_ne_nil (fun c member => isDigit_of_mem_toDigits member)
      (fractionDigits_ne_nil _ _) fun c member => isDigit_of_mem_fractionDigits member

theorem point_mem_numeral (decimal : Decimal) : '.' ∈ decimal.numeral ↔ decimal.places ≠ 0 := by
  simp only [numeral]
  split
  next whole =>
    simpa [whole] using point_not_mem fun c member => isDigit_of_mem_toDigits member
  next pointed => simpa using pointed

theorem sign_not_mem_numeral (decimal : Decimal) : '-' ∉ decimal.numeral :=
  fun member => absurd (isNumeralChar_of_mem_numeral member) (by decide)

end Decimal

namespace Number

/-! ## Texts of finite numbers -/

def signText (number : Float) : List Char :=
  if number < 0 then ['-'] else []

/-- The decimal that a finite number is written with. -/
def numeral (number : Float) : List Char :=
  (Decimal.shortest (Binary64.ofFloat number)).numeral

theorem sign_not_mem_numeral (number : Float) : '-' ∉ numeral number :=
  Decimal.sign_not_mem_numeral _

/-- Both zeros are written alike. -/
theorem write_of_zero {number : Float} (zero : Binary64.ofFloat number = 0) :
    Style.display.write number = "0" := by
  have finite := Binary64.isFinite_of_zero zero
  rw [Style.write, Binary64.isNaN_of_isFinite finite, zero]
  cases Binary64.signBit number <;> rfl

variable {number : Float} (finite : number.isFinite = true)
include finite

theorem toList_write :
    (Style.display.write number).toList = signText number ++ numeral number := by
  have below := Binary64.lt_zero_iff finite
  by_cases zero : Binary64.ofFloat number = 0
  · have unsigned : ¬ number < 0 := by simp [below, zero]
    rw [write_of_zero zero, signText, if_neg unsigned, numeral, zero]
    rfl
  · cases sign : Binary64.signBit number with
    | false =>
      have unsigned : ¬ number < 0 := by simp [below, sign]
      rw [Style.display.write_of_positive finite sign, signText, if_neg unsigned]
      rfl
    | true =>
      have signed : number < 0 := below.mpr ⟨sign, zero⟩
      rw [Style.display.write_of_negative finite sign zero, signText, if_pos signed]
      rfl

theorem plain_write : Decimal.Plain (Style.display.write number).toList := by
  rw [toList_write finite, signText]
  have unsigned := Decimal.unsigned_numeral (Decimal.shortest (Binary64.ofFloat number))
  split
  · exact .negative unsigned
  · exact .unsigned unsigned

theorem point_mem_write :
    '.' ∈ (Style.display.write number).toList ↔ ¬ Binary64.IsIntegral number := by
  have representable := (Binary64.ofFloat_lt_infinity finite).le
  have unpointed : '.' ∉ signText number := by
    rw [signText]
    split <;> simp
  rw [toList_write finite, List.mem_append, or_iff_right unpointed, numeral,
    Decimal.point_mem_numeral, ne_eq, Decimal.places_shortest_eq_zero_iff representable,
    Binary64.isIntegral_iff finite]

theorem sign_mem_write : '-' ∈ (Style.display.write number).toList ↔ number < 0 := by
  rw [toList_write finite, List.mem_append, or_iff_left (sign_not_mem_numeral number), signText]
  split
  next below => simpa using below
  next above => simpa using above

theorem canonicalChars_write :
    Canonical.canonicalChars (Style.display.write number).toList =
      (Style.display.write number).toList := by
  have kept : Canonical.canonicalChars (numeral number) = numeral number :=
    Canonical.canonicalChars_numeral fun c member => Decimal.isNumeralChar_of_mem_numeral member
  rw [toList_write finite, signText]
  split
  · rw [List.singleton_append, Canonical.canonicalChars_cons_sign rfl (by decide), kept]
    rfl
  · exact kept

end Number

end Keypad
