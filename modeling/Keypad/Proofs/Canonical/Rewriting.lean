import Keypad.Proofs.Canonical.Local

/-!
# One pass over the text

Canonical text is written from left to right: every character gives its spelling, and a `*` behind it
if it multiplies the next one. The rule is stated here without the passes that carry it out, and the
passes are shown to do no more and no less (`ofText_eq_spellings`).
-/

namespace Keypad.Canonical

/-- What a typed character is written as. -/
def spelling : Char → String
  | '÷' => "/"
  | '×' => "*"
  | '\u2212' => "-"
  | 'π' => "3.141592653589793"
  | c => c.toString

/-- The neighbours between which a multiplication sign has been left out. -/
inductive Multiply : Char → Char → Prop where
  | beforePi {left : Char} : left.isDigit = true ∨ left = '.' ∨ left = 'π' → Multiply left 'π'
  | behindPi {right : Char} : right.isDigit = true ∨ right = '.' → Multiply 'π' right
  | beforeWord {left right : Char} : left.isDigit = true ∨ left = 'π' → right.isAlpha = true →
      Multiply left right
  | behindGroup {right : Char} : right.isDigit = true ∨ right.isAlpha = true ∨ right = 'π' →
      Multiply ')' right

theorem toList_spelling (c : Char) : (spelling c).toList = spell c := by
  unfold spelling
  split
  case h_5 notDivision notMultiplication notMinus notPi =>
    rw [spell_of_ne notPi, asciiSymbol, if_neg notDivision, if_neg notMultiplication,
      if_neg notMinus]
    exact String.toList_singleton c
  all_goals rfl

theorem multiplies_iff (left right : Char) : multiplies left right = true ↔ Multiply left right := by
  constructor
  · intro multiplied
    simp only [multiplies, touchesPi, Decimal.isNumeralChar, Bool.or_eq_true, Bool.and_eq_true,
      beq_iff_eq] at multiplied
    obtain ((⟨numeral, rfl⟩ | ⟨rfl, numeral⟩) | ⟨coefficient, letter⟩) | ⟨rfl, operand⟩ := multiplied
    · exact .beforePi (or_assoc.mp numeral)
    · exact .behindPi numeral
    · exact .beforeWord coefficient letter
    · exact .behindGroup (or_assoc.mp operand)
  · intro multiply
    cases multiply with
    | beforePi numeral => simp [multiplies, touchesPi, Decimal.isNumeralChar, or_assoc, numeral]
    | behindPi numeral => simp [multiplies, touchesPi, Decimal.isNumeralChar, numeral]
    | beforeWord coefficient letter => simp [multiplies, coefficient, letter]
    | behindGroup operand => simp [multiplies, or_assoc, operand]

instance (left right : Char) : Decidable (Multiply left right) :=
  decidable_of_iff _ (multiplies_iff left right)

/-- The characters of a text, each with the one behind it. -/
def withNext (text : List Char) : List (Char × Option Char) :=
  text.zip (text.tail.map some ++ [none])

/-- What is written for a character in front of another one, or at the end. -/
def written (c : Char) : Option Char → List Char
  | some next => (spelling c).toList ++ if Multiply c next then ['*'] else []
  | none => (spelling c).toList

theorem written_some (left right : Char) :
    written left (some right) = spell left ++ sign (multiplies left right) := by
  simp [written, toList_spelling, sign, multiplies_iff]

theorem written_none (last : Char) : written last none = spell last :=
  toList_spelling last

theorem respell_eq_flatMap (text : List Char) :
    respell text = (withNext text).flatMap fun place => written place.1 place.2 := by
  induction text with
  | nil => rfl
  | cons left later inductionHypothesis =>
    cases later with
    | nil => simp [withNext, respell, written_none]
    | cons right later =>
      have pairs : withNext (left :: right :: later) =
          (left, some right) :: withNext (right :: later) := rfl
      rw [respell_cons_cons, inductionHypothesis, pairs, List.flatMap_cons, written_some]

/-- Nothing is inserted but a `*` between neighbours that multiply, and nothing is left out or moved. -/
theorem ofText_eq_spellings (text : String) :
    ofText text =
      String.ofList ((withNext text.toList).flatMap fun place => written place.1 place.2) := by
  rw [ofText, canonicalChars_eq_respell, respell_eq_flatMap]

/-- Stars meet where several rules apply, and no star is written twice. -/
example : ofText ")ππx÷.π.2sin)3" =
    ")*3.141592653589793*3.141592653589793*x/.*3.141592653589793*.2*sin)*3" := by
  decide

end Keypad.Canonical
