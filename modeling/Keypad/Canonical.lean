import Keypad.Decimal

/-!
# Canonical text

What is typed on the keypad may hold display symbols and leave multiplication signs out. Canonical
text spells the operators in ASCII, gives π as a numeral and has every multiplication sign. Other
characters stay as they are.
-/

namespace Keypad.Canonical

/-- Writes `*` between neighbours that multiply. -/
def multiplyBetween (multiplies : Char → Char → Bool) : List Char → List Char
  | [] => []
  | [last] => [last]
  | left :: right :: later =>
    if multiplies left right then left :: '*' :: multiplyBetween multiplies (right :: later)
    else left :: multiplyBetween multiplies (right :: later)

/-- The ASCII spelling of the display symbols. -/
def asciiSymbol (c : Char) : Char :=
  if c = '÷' then '/'
  else if c = '×' then '*'
  else if c = '−' then '-'
  else c

/-- The numeral that stands for π. -/
def piNumeral : List Char :=
  "3.141592653589793".toList

def spellPi (c : Char) : List Char :=
  if c = 'π' then piNumeral else [c]

/-- A π beside a numeral or another π is a factor of its own. -/
def touchesPi (left right : Char) : Bool :=
  ((Decimal.isNumeralChar left || left == 'π') && right == 'π') ||
    (left == 'π' && Decimal.isNumeralChar right)

/-- As in `2sin(30)`. -/
def coefficientBeforeWord (left right : Char) : Bool :=
  left.isDigit && right.isAlpha

/-- As in `(1+2)3`. -/
def groupBeforeOperand (left right : Char) : Bool :=
  left == ')' && (right.isDigit || right.isAlpha)

/-- The canonical spelling of a text. -/
def canonicalChars (text : List Char) : List Char :=
  let factors := (multiplyBetween touchesPi (text.map asciiSymbol)).flatMap spellPi
  multiplyBetween groupBeforeOperand (multiplyBetween coefficientBeforeWord factors)

/-- The canonical text of a typed text. It is defined for every text; what no expression can hold is
    left for the scanner to refuse. -/
def ofText (text : String) : String :=
  String.ofList (canonicalChars text.toList)

end Keypad.Canonical
