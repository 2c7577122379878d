import Keypad.Decimal.Shortest

/-!
# The text of numbers

Numbers are written with the fewest digits that read back and never with an exponent. The two
places where numbers are shown, listings and the display, differ in the infinities and in negative
zero.
-/

namespace Keypad.Number

/-- The double nearest to a numeral. A value too large for a finite double reads as infinity. -/
def ofNumeral? (run : List Char) : Option Float :=
  (Decimal.ofNumeral? run).map fun decimal => Binary64.toFloat decimal.magnitude

/-- What a place shows for numbers that have no digits of their own. -/
structure Style where
  infinity : String
  negativeZero : String

namespace Style

/-- Listings and messages keep the sign of zero. -/
def listing : Style := ⟨"inf", "-0"⟩

/-- The display shows both zeros alike. -/
def display : Style := ⟨"Infinity", "0"⟩

/-- The text of a magnitude. -/
def writeMagnitude (style : Style) (magnitude : Nat) : String :=
  if magnitude = Binary64.infinity then style.infinity
  else String.ofList (Decimal.shortest magnitude).numeral

/-- The text of a number. -/
def write (style : Style) (number : Float) : String :=
  if number.isNaN then "NaN"
  else if Binary64.signBit number then
    if Binary64.ofFloat number = 0 then style.negativeZero
    else "-" ++ style.writeMagnitude (Binary64.ofFloat number)
  else style.writeMagnitude (Binary64.ofFloat number)

end Style

end Keypad.Number
