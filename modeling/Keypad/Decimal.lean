import Keypad.Binary64

/-!
# Decimal numerals

A decimal is a coefficient and a number of places after the point. It is written in plain positional
notation and read from runs of digits and points.
-/

namespace Keypad

/-- The number `coefficient / 10 ^ places`. -/
structure Decimal where
  coefficient : Nat
  places : Nat
deriving DecidableEq, Repr

namespace Decimal

-- Powers are those of natural numbers, also where monoids have theirs.
attribute [local instance (high)] instPowNat

/-- The magnitude of the double nearest to a decimal. -/
def magnitude (decimal : Decimal) : Nat :=
  Binary64.nearest (decimal.coefficient * Binary64.unitsPerOne) (10 ^ decimal.places)

/-- Digits for `places` places, with leading zeros. -/
def fractionDigits (places fraction : Nat) : List Char :=
  let digits := Nat.toDigits 10 fraction
  List.replicate (places - digits.length) '0' ++ digits

/-- Positional notation: at least one digit before the point, and a point only where digits follow
    it. -/
def numeral (decimal : Decimal) : List Char :=
  let scale := 10 ^ decimal.places
  let whole := Nat.toDigits 10 (decimal.coefficient / scale)
  if decimal.places = 0 then whole
  else whole ++ '.' :: fractionDigits decimal.places (decimal.coefficient % scale)

/-- The characters that numerals are made of. -/
def isNumeralChar (c : Char) : Bool :=
  c.isDigit || c == '.'

theorem isNumeralChar_of_isDigit {c : Char} (digit : c.isDigit = true) :
    isNumeralChar c = true := by
  rw [isNumeralChar, digit, Bool.true_or]

/-- A numeral has at least one digit and at most one point; digits may be missing on either side of
    the point. -/
def isNumeral (run : List Char) : Bool :=
  run.all isNumeralChar && run.any Char.isDigit && run.count '.' ≤ 1

/-- Reads a numeral, with as many places as digits after the point. -/
def ofNumeral? (run : List Char) : Option Decimal :=
  if isNumeral run then
    some ⟨Nat.ofDigitChars 10 (run.filter Char.isDigit) 0, (run.dropWhile (· != '.')).length - 1⟩
  else none

theorem isSome_ofNumeral? (run : List Char) : (ofNumeral? run).isSome = isNumeral run := by
  unfold ofNumeral?
  split <;> simp_all

end Decimal

end Keypad
