import Keypad.Display
import Keypad.Proofs.Evaluation.Group

/-!
# Calculating again

The text of a finite result evaluates to that result, so calculating it again changes nothing
(`shown_write`). The texts of the infinities and of NaN are words, and words that name no function
(`shown_of_infinite`).
-/

namespace Keypad

theorem Number.Style.write_of_infinite (style : Number.Style) {number : Float}
    (infinite : number.isFinite = false) :
    style.write number = style.infinity ∨ style.write number = "-" ++ style.infinity ∨
      style.write number = "NaN" := by
  rw [write]
  cases ordered : number.isNaN with
  | true => exact .inr (.inr rfl)
  | false =>
    have magnitude := Binary64.ofFloat_eq_infinity ordered infinite
    have nonzero : Binary64.infinity ≠ 0 := by decide
    simp only [magnitude, writeMagnitude, if_true, if_neg nonzero, Bool.false_eq_true, if_false]
    cases Binary64.signBit number with
    | true => exact .inr (.inl rfl)
    | false => exact .inl rfl

namespace Evaluation

theorem ofText_of_reading {text : String} {value : Float}
    (read : Lexeme.reading text.toList >>= ofLexemes = .ok value) : ofText text = .ok value := by
  rw [← withoutPosition_ofText] at read
  cases valued : ofText text with
  | error failure =>
    rw [valued] at read
    cases read
  | ok other =>
    rw [valued] at read
    cases read
    rfl

theorem shown_write {value : Float} (finite : value.isFinite = true) :
    shown (Number.Style.display.write value) = .ok (Number.Style.display.write value) := by
  by_cases zero : value = -0
  · rw [zero]
    decide +kernel
  · rw [shown, ofText_of_reading (evaluate_write finite zero)]

theorem shown_of_infinite {value : Float} (infinite : value.isFinite = false) :
    ∃ name, (name = "NaN" ∧ Number.Style.display.write value = "NaN" ∨
        name = "Infinity" ∧ (Number.Style.display.write value = "Infinity" ∨
          Number.Style.display.write value = "-Infinity")) ∧
      shown (Number.Style.display.write value) = .error ("Unknown function '" ++ name ++ "'") := by
  obtain same | same | same := Number.Style.display.write_of_infinite infinite
  · refine ⟨"Infinity", .inr ⟨rfl, .inl same⟩, ?_⟩
    rw [same]
    decide +kernel
  · refine ⟨"Infinity", .inr ⟨rfl, .inr same⟩, ?_⟩
    rw [same]
    decide +kernel
  · refine ⟨"NaN", .inl ⟨rfl, same⟩, ?_⟩
    rw [same]
    decide +kernel

end Evaluation

namespace Display

theorem outcome_of_value {display : Display} {value : Float} (plain : display.showsError = false)
    (valued : Evaluation.ofText display.text = .ok value) :
    display.outcome = .ok (Number.Style.display.write value) := by
  rw [outcome, plain, Evaluation.shown, valued]
  rfl

theorem outcome_calculate_of_finite {display : Display} {value : Float}
    (plain : display.showsError = false) (valued : Evaluation.ofText display.text = .ok value)
    (finite : value.isFinite = true) : display.calculate.outcome = display.outcome := by
  have result := outcome_of_value plain valued
  rw [calculate_of_outcome result, result, ofOutcome, outcome_plain, Evaluation.shown_write finite]

/-- An error message stays, however often it is calculated. -/
theorem pressAll_calculate (message : String) (count : Nat) :
    pressAll ⟨message, true⟩ (List.replicate count .calculate) = ⟨message, true⟩ := by
  induction count with
  | zero => rfl
  | succ count inductionHypothesis => exact inductionHypothesis

theorem pressAll_calculate_of_error {display : Display} {message : String}
    (failed : display.outcome = .error message) (count : Nat) :
    (display.pressAll (List.replicate count .calculate)).outcome = .error message ∧
      (display.pressAll (List.replicate count .calculate)).calculate = ⟨message, true⟩ := by
  cases count with
  | zero => exact ⟨failed, calculate_of_outcome failed⟩
  | succ count =>
    have first : display.press .calculate = ⟨message, true⟩ := calculate_of_outcome failed
    rw [List.replicate_succ, pressAll_cons, first, pressAll_calculate]
    exact ⟨rfl, rfl⟩

/-- Calculating again changes nothing, unless the result was not finite. Then its text is taken for
    a function, and the message about that stays. -/
theorem calculate_again (display : Display) :
    (∀ message, display.outcome = .error message →
      display.calculate.outcome = .error message ∧
        display.calculate.calculate = display.calculate) ∧
    ∀ value, display.showsError = false → Evaluation.ofText display.text = .ok value →
      (value.isFinite = true →
        display.calculate.outcome = display.outcome ∧
          display.calculate.calculate = display.calculate) ∧
      (value.isFinite = false →
        ∃ name, (name = "NaN" ∧ display.outcome = .ok "NaN" ∨
            name = "Infinity" ∧ (display.outcome = .ok "Infinity" ∨
              display.outcome = .ok "-Infinity")) ∧
          ∀ count,
            (display.calculate.pressAll (List.replicate count .calculate)).outcome =
              .error ("Unknown function '" ++ name ++ "'") ∧
            (display.calculate.pressAll (List.replicate count .calculate)).calculate =
              ⟨"Unknown function '" ++ name ++ "'", true⟩) := by
  refine ⟨fun message failed => ?_,
    fun value plain valued => ⟨fun finite => ?_, fun infinite => ?_⟩⟩
  · rw [calculate_of_outcome failed]
    exact ⟨outcome_error message, rfl⟩
  · have again := outcome_calculate_of_finite plain valued finite
    exact ⟨again, calculate_of_outcome again⟩
  · have result := outcome_of_value plain valued
    obtain ⟨name, kind, unknown⟩ := Evaluation.shown_of_infinite infinite
    refine ⟨name, ?_, fun count => ?_⟩
    · rw [result]
      simpa only [Except.ok.injEq] using kind
    · apply pressAll_calculate_of_error
      rw [calculate_of_outcome result, ofOutcome, outcome_plain, unknown]

/-- The numeral of `-10³⁰⁹`, which is beyond the finite numbers. -/
def hugeNumeral : List Char :=
  '-' :: '1' :: List.replicate 309 '0'

theorem ofText_hugeNumeral : Evaluation.ofText (String.ofList hugeNumeral) = .ok (-(1 / 0)) := by
  apply Evaluation.ofText_of_reading
  rw [String.toList_ofList]
  exact ok_of_toOption (by decide +kernel)

/-- The display before this numeral is calculated. -/
def overflowing : Display :=
  ⟨String.ofList hugeNumeral, false⟩

theorem calculate_again_of_overflowing :
    (∃ message, (⟨"5÷0", false⟩ : Display).outcome = .error message ∧
      (⟨"5÷0", false⟩ : Display).calculate.outcome = .error message) ∧
    (∃ value, Evaluation.ofText "0-1÷8" = .ok value ∧ value.isFinite = true ∧
      (⟨"0-1÷8", false⟩ : Display).calculate.outcome = (⟨"0-1÷8", false⟩ : Display).outcome) ∧
    overflowing.showsError = false ∧
    ∃ value, Evaluation.ofText overflowing.text = .ok value ∧ value.isFinite = false ∧
      ∃ name, (name = "NaN" ∧ overflowing.outcome = .ok "NaN" ∨
          name = "Infinity" ∧ (overflowing.outcome = .ok "Infinity" ∨
            overflowing.outcome = .ok "-Infinity")) ∧
        ∀ count,
          (overflowing.calculate.pressAll (List.replicate count .calculate)).outcome =
            .error ("Unknown function '" ++ name ++ "'") ∧
          (overflowing.calculate.pressAll (List.replicate count .calculate)).calculate =
            ⟨"Unknown function '" ++ name ++ "'", true⟩ := by
  have failed : (⟨"5÷0", false⟩ : Display).outcome = .error "Division by zero" := by
    decide +kernel
  have negative : Evaluation.ofText "0-1÷8" = .ok (-0.125) :=
    ok_of_toOption (by decide +kernel)
  have negativeFinite : (-0.125 : Float).isFinite = true := by decide +kernel
  have infinite : (-(1 / 0) : Float).isFinite = false := by decide +kernel
  have valued : Evaluation.ofText overflowing.text = .ok (-(1 / 0)) := ofText_hugeNumeral
  exact ⟨⟨_, failed, ((calculate_again _).1 _ failed).1⟩,
    ⟨_, negative, negativeFinite, (((calculate_again ⟨"0-1÷8", false⟩).2 _ rfl negative).1
      negativeFinite).1⟩,
    rfl, _, valued, infinite, ((calculate_again overflowing).2 _ rfl valued).2 infinite⟩

end Display

end Keypad
