import Keypad.Proofs.Canonical.Local
import Keypad.Proofs.Text.Runs
import Keypad.Token.Scan

/-!
# Readings

What a typed text reads as, apart from where in the text it is read: its lexemes, or a failure
without its position. Signs are never part of a run, so a text is read piece by piece between its
signs (`reading_append_sign`, `reading_cons_sign`), while numerals and words are single runs.
-/

namespace Keypad

/-! ## Readings -/

/-- The failure as if it had happened at the start. -/
def Failure.withoutPosition : Failure → Failure
  | invalidCharacter character _ => invalidCharacter character 0
  | unmatchedRightParen _ => unmatchedRightParen 0
  | unclosedLeftParen _ => unclosedLeftParen 0
  | failure => failure

namespace Lexeme

/-- Reads runs without regard to their positions. -/
def ofRuns : List (Run Char) → Except Failure (List Lexeme)
  | [] => .ok []
  | run :: later => do
    let lexeme ← ofRun 0 run
    let lexemes ← ofRuns later
    return lexeme :: lexemes

theorem ofRuns_append (runs later : List (Run Char)) :
    ofRuns (runs ++ later) = do
      let lexemes ← ofRuns runs
      let rest ← ofRuns later
      return lexemes ++ rest := by
  induction runs with
  | nil =>
    change ofRuns later = (ofRuns later).bind _
    cases ofRuns later <;> rfl
  | cons run runs inductionHypothesis =>
    simp only [List.cons_append, ofRuns, inductionHypothesis, bind_assoc, pure_bind]

theorem withoutPosition_ofRun (position : Nat) (run : Run Char) :
    (ofRun position run).mapError Failure.withoutPosition = ofRun 0 run := by
  simp only [ofRun]
  split
  · split <;> rfl
  · split
    · rfl
    · split <;> rfl

theorem withoutPosition_ofRuns (position : Nat) (runs : List (Run Char)) :
    ((Token.ofRuns position runs).map (List.map Token.lexeme)).mapError Failure.withoutPosition =
      ofRuns runs := by
  induction runs generalizing position with
  | nil => rfl
  | cons run runs inductionHypothesis =>
    rw [ofRuns, ← withoutPosition_ofRun position,
      ← inductionHypothesis (position + Token.byteLength run.toList)]
    cases head : ofRun position run with
    | error failure =>
      simp only [Token.ofRuns, head]
      rfl
    | ok lexeme =>
      cases tail : Token.ofRuns (position + Token.byteLength run.toList) runs with
      | error failure =>
        simp only [Token.ofRuns, head, tail]
        rfl
      | ok tokens =>
        simp only [Token.ofRuns, head, tail]
        rfl

/-! ## Piece by piece -/

/-- What is neither part of a numeral nor a letter joins nothing. -/
theorem joins_left_of_symbol {element : Char} (other : Decimal.isNumeralChar element = false)
    (nonletter : element.isAlpha = false) (next : Char) : joins element next = false := by
  simp [joins, other, nonletter]

theorem joins_right_of_symbol {next : Char} (other : Decimal.isNumeralChar next = false)
    (nonletter : next.isAlpha = false) (element : Char) : joins element next = false := by
  simp [joins, other, nonletter]

theorem joins_sign_right {next : Char} (apart : Canonical.isOperandChar next = false)
    (element : Char) : joins element next = false := by
  simp only [Canonical.isOperandChar, Bool.or_eq_false_iff] at apart
  exact joins_right_of_symbol apart.1.1 apart.1.2 element

theorem joins_sign_left {element : Char} (apart : Canonical.isOperandChar element = false)
    (next : Char) : joins element next = false := by
  simp only [Canonical.isOperandChar, Bool.or_eq_false_iff] at apart
  exact joins_left_of_symbol apart.1.1 apart.1.2 next

/-- What a typed text reads as. -/
def reading (text : List Char) : Except Failure (List Lexeme) :=
  ofRuns (Run.split joins (Canonical.canonicalChars text))

theorem withoutPosition_scan (text : String) :
    ((Token.scan (Canonical.ofText text)).map (List.map Token.lexeme)).mapError
      Failure.withoutPosition = reading text.toList := by
  rw [Token.scan, Canonical.ofText, String.toList_ofList]
  exact withoutPosition_ofRuns 0 _

theorem reading_append_sign {sign : Char} (apart : Canonical.isOperandChar sign = false)
    (front back : List Char) :
    reading (front ++ sign :: back) = do
      let lexemes ← reading front
      let rest ← reading (sign :: back)
      return lexemes ++ rest := by
  obtain ⟨after, spelled⟩ := Canonical.head_canonicalChars apart back
  rw [reading, reading, reading, Canonical.canonicalChars_append_sign apart, spelled,
    Run.split_append (joins_sign_right (Canonical.isOperandChar_asciiSymbol sign ▸ apart)),
    ofRuns_append]

theorem reading_sign {sign : Char} (apart : Canonical.isOperandChar sign = false)
    (back : List Char) :
    ∃ after, reading (sign :: back) = do
      let lexeme ← ofRun 0 ⟨Canonical.asciiSymbol sign, []⟩
      let lexemes ← after
      return lexeme :: lexemes := by
  obtain ⟨after, spelled⟩ := Canonical.head_canonicalChars apart back
  refine ⟨ofRuns (Run.split joins after), ?_⟩
  rw [reading, spelled,
    Run.split_cons_of_apart (joins_sign_left (Canonical.isOperandChar_asciiSymbol sign ▸ apart)),
    ofRuns]

theorem reading_cons_sign {sign : Char} (apart : Canonical.isOperandChar sign = false)
    (opens : sign ≠ ')') (back : List Char) :
    reading (sign :: back) = do
      let lexeme ← ofRun 0 ⟨Canonical.asciiSymbol sign, []⟩
      let lexemes ← reading back
      return lexeme :: lexemes := by
  -- A closing parenthesis is left out, since it multiplies an operand behind it.
  rw [reading, Canonical.canonicalChars_cons_sign apart opens,
    Run.split_cons_of_apart (joins_sign_left (Canonical.isOperandChar_asciiSymbol sign ▸ apart)),
    ofRuns, reading]

theorem reading_enclosed {text : List Char} {phrase : List Lexeme}
    (read : reading text = .ok phrase) :
    reading ('(' :: text ++ [')']) = .ok (.leftParen :: phrase ++ [.rightParen]) := by
  rw [reading_append_sign rfl, reading_cons_sign rfl (by decide), read]
  rfl

/-! ## Operands -/

/-- What joins a digit or a point is another one. -/
theorem joins_numeral_left {left : Char} (numeral : Decimal.isNumeralChar left = true)
    (right : Char) : joins left right = Decimal.isNumeralChar right := by
  rw [joins, numeral, Canonical.isAlpha_of_isNumeralChar numeral, Bool.true_and, Bool.false_and,
    Bool.or_false]

theorem joins_numeral_right {right : Char} (numeral : Decimal.isNumeralChar right = true)
    (left : Char) : joins left right = Decimal.isNumeralChar left := by
  rw [joins, numeral, Canonical.isAlpha_of_isNumeralChar numeral, Bool.and_true, Bool.and_false,
    Bool.or_false]

theorem joins_letter_left {left : Char} (letter : left.isAlpha = true) (right : Char) :
    joins left right = right.isAlpha := by
  rw [joins, letter, Canonical.isNumeralChar_of_isAlpha letter, Bool.false_and, Bool.true_and,
    Bool.false_or]

theorem split_numeral {run : Run Char}
    (numeral : ∀ c ∈ run.toList, Decimal.isNumeralChar c = true) :
    Run.split joins run.toList = [run] := by
  apply Run.split_of_joined
  intro left leftMember right rightMember
  rw [joins_numeral_left (numeral left leftMember)]
  exact numeral right rightMember

theorem split_word {run : Run Char} (letters : ∀ c ∈ run.toList, c.isAlpha = true) :
    Run.split joins run.toList = [run] := by
  apply Run.split_of_joined
  intro left leftMember right rightMember
  rw [joins_letter_left (letters left leftMember)]
  exact letters right rightMember

theorem reading_numeral {text : List Char} {value : Float} (nonempty : text ≠ [])
    (numeral : ∀ c ∈ text, Decimal.isNumeralChar c = true)
    (valued : Number.ofNumeral? text = some value) : reading text = .ok [.number value] := by
  rw [reading, Canonical.canonicalChars_numeral numeral]
  cases text with
  | nil => exact absurd rfl nonempty
  | cons first rest =>
    have cut : Run.split joins (first :: rest) = [⟨first, rest⟩] :=
      @split_numeral ⟨first, rest⟩ numeral
    simp only [cut, ofRuns, ofRun, numeral first List.mem_cons_self, if_true, Run.toList, valued]
    rfl

theorem reading_word {text : List Char} (nonempty : text ≠ [])
    (letters : ∀ c ∈ text, c.isAlpha = true) :
    reading text = .ok [.word (String.ofList text)] := by
  rw [reading, Canonical.canonicalChars_word letters]
  cases text with
  | nil => exact absurd rfl nonempty
  | cons first rest =>
    have cut : Run.split joins (first :: rest) = [⟨first, rest⟩] :=
      @split_word ⟨first, rest⟩ letters
    have other := Canonical.isNumeralChar_of_isAlpha (letters first List.mem_cons_self)
    simp only [cut, ofRuns, ofRun, other, Bool.false_eq_true, if_false,
      letters first List.mem_cons_self, if_true, Run.toList]
    rfl

end Lexeme

end Keypad
