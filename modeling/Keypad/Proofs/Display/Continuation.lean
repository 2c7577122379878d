import Keypad.Proofs.Display.Erasure
import Keypad.Proofs.Display.Recalculation
import Keypad.Proofs.Formula.RoundTrip
import Keypad.Proofs.Number.Notation

/-!
# Continuing from a result

A result that is continued with an operator is one operand of what follows, as if it stood in
parentheses (`result_continued`). The sign of a negative result is read anew, and is complete at
every operator but `^`, which takes the magnitude only. At the operator both readings put out the
same items and leave the same stack (`MeetAt`), so anything can be typed behind it.
-/

namespace Keypad

namespace Evaluation

open Postfix

/-- Equal results, or failures that differ in nothing but their position. -/
inductive SameOutcome : Except String String → Except String String → Prop where
  | result (text : String) : SameOutcome (.ok text) (.ok text)
  | failure {failure other : Failure} (same : failure.withoutPosition = other.withoutPosition) :
      SameOutcome (.error failure.message) (.error other.message)

theorem sameOutcome_shown {text other : String}
    (same : (ofText text).mapError Failure.withoutPosition =
      (ofText other).mapError Failure.withoutPosition) : SameOutcome (shown text) (shown other) := by
  rw [shown, shown]
  cases valued : ofText text with
  | ok value =>
    cases otherValued : ofText other with
    | ok otherValue =>
      rw [valued, otherValued] at same
      cases same
      exact .result _
    | error failure =>
      rw [valued, otherValued] at same
      cases same
  | error failure =>
    cases otherValued : ofText other with
    | ok value =>
      rw [valued, otherValued] at same
      cases same
    | error otherFailure =>
      rw [valued, otherValued] at same
      exact .failure (Except.error.inj same)

/-! ## Two ways to an operator -/

/-- Both phrases put out the same items and leave the same stack, once the operator follows. -/
def MeetAt (op : Operator) (phrase other : List Lexeme) : Prop :=
  State.initial.run ((phrase ++ [Lexeme.operator op]).map Lexeme.token) =
    State.initial.run ((other ++ [Lexeme.operator op]).map Lexeme.token)

theorem MeetAt.ofLexemes_eq {op : Operator} {phrase other : List Lexeme}
    (meet : MeetAt op phrase other) (later : List Lexeme) :
    ofLexemes (phrase ++ .operator op :: later) = ofLexemes (other ++ .operator op :: later) := by
  have cut (front : List Lexeme) : (front ++ Lexeme.operator op :: later).map Lexeme.token =
      (front ++ [Lexeme.operator op]).map Lexeme.token ++ later.map Lexeme.token := by
    simp
  simp only [ofLexemes, ofTokens, Postfix.ofTokens, cut, State.items_append]
  rw [meet]

theorem meetAt_group (op : Operator) (value : Float) :
    MeetAt op [.number value] [.leftParen, .number value, .rightParen] :=
  rfl

theorem meetAt_negated_group (op : Operator) (value : Float) :
    MeetAt op [.operator .subtract, .number value]
      [.operator .subtract, .leftParen, .number value, .rightParen] :=
  rfl

/-- The sign is complete at an operator that binds no more tightly. -/
theorem meetAt_group_negated {op : Operator} (loose : op.precedence ≤ negationPrecedence)
    (value : Float) :
    MeetAt op [.operator .subtract, .number value]
      [.leftParen, .operator .subtract, .number value, .rightParen] := by
  have signed : State.initial.run ([.operator .subtract, .number value].map Lexeme.token) =
      .ok ([.number value], ⟨Pending.block [.negation] ++ [], false⟩) := rfl
  have grouped : State.initial.run
      ([.leftParen, .operator .subtract, .number value, .rightParen].map Lexeme.token) =
      .ok ([.number value, .negation], ⟨[], false⟩) := rfl
  have claimed : ∀ item ∈ [Item.negation], Pending.claimsBefore op (.item item) = true := by
    intro item member
    cases List.mem_singleton.mp member
    exact decide_eq_true loose
  have unclaimed : ∀ top ∈ ([] : List Pending).head?, Pending.claimsBefore op top = false := by
    simp
  have released : State.step ⟨Pending.block [.negation] ++ [], false⟩ (Lexeme.operator op).token =
      .ok ([.negation], ⟨[.item (.operator op)], true⟩) := by
    simp only [State.step, Lexeme.token, State.release_block claimed unclaimed]
    rfl
  have kept : State.step ⟨[], false⟩ (Lexeme.operator op).token =
      .ok ([], ⟨[.item (.operator op)], true⟩) := rfl
  rw [MeetAt, List.map_append, List.map_append]
  exact (State.run_append_ok signed (State.run_cons_ok released (State.run_nil _))).trans
    (State.run_append_ok grouped (State.run_cons_ok kept (State.run_nil _))).symm

/-- A power takes the sign only from inside the parentheses. -/
theorem not_meetAt_power (value : Float) :
    ¬ MeetAt .power [.operator .subtract, .number value]
      [.leftParen, .operator .subtract, .number value, .rightParen] := by
  intro meet
  cases meet

theorem sameOutcome_of_meetAt {operation : Operation} {spelling : Spelling} {rest : List Char}
    {front other text : String} {phrase otherPhrase : List Lexeme}
    (continued : text.toList = operation.symbol spelling :: rest)
    (read : Lexeme.reading front.toList = .ok phrase)
    (otherRead : Lexeme.reading other.toList = .ok otherPhrase)
    (meet : MeetAt operation.operator phrase otherPhrase) :
    SameOutcome (shown (front ++ text)) (shown (other ++ text)) := by
  apply sameOutcome_shown
  rw [withoutPosition_ofText, withoutPosition_ofText, String.toList_append, String.toList_append,
    continued, Formula.reading_operator, Formula.reading_operator, read, otherRead]
  cases Lexeme.reading rest with
  | error failure => rfl
  | ok later => exact meet.ofLexemes_eq later

end Evaluation

/-! ## Written numbers in front of an operator -/

namespace Number

open Evaluation (SameOutcome shown sameOutcome_of_meetAt)

theorem toList_enclosed (text : String) :
    ("(" ++ text ++ ")").toList = '(' :: text.toList ++ [')'] := by
  simp

variable {number : Float} (finite : number.isFinite = true)
include finite

theorem reading_numeral :
    Lexeme.reading (numeral number) =
      .ok [.number (Binary64.toFloat (Binary64.ofFloat number))] :=
  reading_shortest (Binary64.ofFloat_lt_infinity finite)

theorem reading_signed_numeral :
    Lexeme.reading ('-' :: numeral number) =
      .ok [.operator .subtract, .number (Binary64.toFloat (Binary64.ofFloat number))] := by
  rw [Lexeme.reading_cons_sign rfl (by decide), reading_numeral finite]
  rfl

theorem toList_write_cases :
    (Style.display.write number).toList = numeral number ∨
      (Style.display.write number).toList = '-' :: numeral number := by
  rw [toList_write finite, signText]
  split
  · exact .inr rfl
  · exact .inl rfl

variable {operation : Operation} {spelling : Spelling} {rest : List Char} {text : String}
  (continued : text.toList = operation.symbol spelling :: rest)
include continued

theorem unsigned_continued (unsigned : '-' ∉ (Style.display.write number).toList) :
    SameOutcome (shown (Style.display.write number ++ text))
      (shown ("(" ++ Style.display.write number ++ ")" ++ text)) := by
  obtain written | written := toList_write_cases finite
  · have read := reading_numeral finite
    rw [← written] at read
    apply sameOutcome_of_meetAt continued read _ (Evaluation.meetAt_group _ _)
    rw [toList_enclosed]
    exact Lexeme.reading_enclosed read
  · rw [written] at unsigned
    exact absurd List.mem_cons_self unsigned

theorem negative_continued {magnitude : String}
    (signed : Style.display.write number = "-" ++ magnitude) :
    SameOutcome (shown (Style.display.write number ++ text))
      (shown ("-(" ++ magnitude ++ ")" ++ text)) := by
  have front : (Style.display.write number).toList = '-' :: magnitude.toList := by
    rw [signed]
    simp
  obtain written | written := toList_write_cases finite
  · rw [written] at front
    exact absurd (front ▸ List.mem_cons_self) (sign_not_mem_numeral number)
  · have read := reading_signed_numeral finite
    have same : magnitude.toList = numeral number := by
      rw [written] at front
      exact (List.cons.inj front).2.symm
    rw [← written] at read
    apply sameOutcome_of_meetAt continued read _ (Evaluation.meetAt_negated_group _ _)
    have enclosed : ("-(" ++ magnitude ++ ")").toList = '-' :: ('(' :: numeral number ++ [')']) := by
      simp [same]
    rw [enclosed, Lexeme.reading_cons_sign rfl (by decide),
      Lexeme.reading_enclosed (reading_numeral finite)]
    rfl

theorem loosely_continued
    (loose : operation.operator.precedence ≤ Postfix.negationPrecedence) :
    SameOutcome (shown (Style.display.write number ++ text))
      (shown ("(" ++ Style.display.write number ++ ")" ++ text)) := by
  obtain written | written := toList_write_cases finite
  · apply unsigned_continued finite continued
    rw [written]
    exact sign_not_mem_numeral number
  · have read := reading_signed_numeral finite
    rw [← written] at read
    apply sameOutcome_of_meetAt continued read _ (Evaluation.meetAt_group_negated loose _)
    rw [toList_enclosed]
    exact Lexeme.reading_enclosed read

end Number

theorem Operation.exists_symbol_eq {symbol : Char}
    (member : symbol ∈ ['+', '-', '*', '/', '×', '÷', '−']) :
    ∃ (operation : Operation) (spelling : Spelling), symbol = operation.symbol spelling ∧
      operation.operator.precedence ≤ Postfix.negationPrecedence := by
  simp only [List.mem_cons, List.not_mem_nil, or_false] at member
  obtain rfl | rfl | rfl | rfl | rfl | rfl | rfl := member
  · exact ⟨.add, .ascii, rfl, by decide⟩
  · exact ⟨.subtract, .ascii, rfl, by decide⟩
  · exact ⟨.multiply, .ascii, rfl, by decide⟩
  · exact ⟨.divide, .ascii, rfl, by decide⟩
  · exact ⟨.multiply, .keypad, rfl, by decide⟩
  · exact ⟨.divide, .keypad, rfl, by decide⟩
  · exact ⟨.subtract, .keypad, rfl, by decide⟩

namespace Display

/-- Error messages have no result. -/
theorem plain_of_result {display : Display} {result : String}
    (answered : display.outcome = .ok result) : display.showsError = false := by
  cases shows : display.showsError with
  | false => rfl
  | true =>
    rw [outcome, shows] at answered
    cases answered

theorem outcome_continued {display : Display} {result : String}
    (answered : display.outcome = .ok result) (typed : List String) :
    (display.calculate.pressAll (typed.map .input)).outcome =
      Evaluation.shown (result ++ String.join typed) := by
  rw [calculate_of_outcome answered, ofOutcome, pressAll_texts, outcome_plain]

/-- A finite result that is continued with an operator evaluates as if it stood in parentheses,
    whatever follows the operator. But a power takes the magnitude of a negative result only. -/
theorem result_continued {display : Display} {result : String} {value : Float}
    (answered : display.outcome = .ok result) (valued : Evaluation.ofText display.text = .ok value)
    (finite : value.isFinite = true) {typed : List String} {symbol : Char} {rest : List Char}
    (continued : (String.join typed).toList = symbol :: rest) :
    let answer := (display.calculate.pressAll (typed.map .input)).outcome
    (symbol ∈ ['+', '-', '*', '/', '×', '÷', '−'] →
      Evaluation.SameOutcome answer
        (Evaluation.shown ("(" ++ result ++ ")" ++ String.join typed))) ∧
    (symbol = '^' →
      ('-' ∉ result.toList →
        Evaluation.SameOutcome answer
          (Evaluation.shown ("(" ++ result ++ ")" ++ String.join typed))) ∧
      ∀ magnitude, result = "-" ++ magnitude →
        Evaluation.SameOutcome answer
          (Evaluation.shown ("-(" ++ magnitude ++ ")" ++ String.join typed))) := by
  have written := outcome_of_value (plain_of_result answered) valued
  rw [answered] at written
  cases written
  have raised (power : symbol = '^') :
      (String.join typed).toList = Operation.power.symbol .ascii :: rest := by
    rw [continued, power]
    rfl
  intro answer
  simp only [answer, outcome_continued answered]
  refine ⟨fun member => ?_, fun power => ⟨fun unsigned => ?_, fun magnitude signed => ?_⟩⟩
  · obtain ⟨operation, spelling, rfl, loose⟩ := Operation.exists_symbol_eq member
    exact Number.loosely_continued finite continued loose
  · exact Number.unsigned_continued finite (raised power) unsigned
  · exact Number.negative_continued finite (raised power) signed

/-- A negative result is continued by a product with a parenthesis too many, and by a power. A
    positive one is raised as it stands. -/
theorem result_continued_of_differences :
    let negative : Display := ⟨"2−5", false⟩
    let positive : Display := ⟨"5−2", false⟩
    negative.outcome = .ok "-3" ∧ Evaluation.ofText negative.text = .ok (-3) ∧
      positive.outcome = .ok "3" ∧ Evaluation.ofText positive.text = .ok 3 ∧
      (-3 : Float).isFinite = true ∧ (3 : Float).isFinite = true ∧ '-' ∉ "3".toList ∧
      Evaluation.SameOutcome (negative.calculate.pressAll (["×", "4)"].map .input)).outcome
        (Evaluation.shown ("(" ++ "-3" ++ ")" ++ String.join ["×", "4)"])) ∧
      Evaluation.SameOutcome (negative.calculate.pressAll (["^2"].map .input)).outcome
        (Evaluation.shown ("-(" ++ "3" ++ ")" ++ String.join ["^2"])) ∧
      Evaluation.SameOutcome (positive.calculate.pressAll (["^2"].map .input)).outcome
        (Evaluation.shown ("(" ++ "3" ++ ")" ++ String.join ["^2"])) := by
  intro negative positive
  have answered : negative.outcome = .ok "-3" := by decide +kernel
  have valued : Evaluation.ofText negative.text = .ok (-3) := ok_of_toOption (by decide +kernel)
  have finite : (-3 : Float).isFinite = true := by decide
  have positiveAnswered : positive.outcome = .ok "3" := by decide +kernel
  have positiveValued : Evaluation.ofText positive.text = .ok 3 :=
    ok_of_toOption (by decide +kernel)
  have positiveFinite : (3 : Float).isFinite = true := by decide
  have unsigned : '-' ∉ "3".toList := by decide
  have product : (String.join ["×", "4)"]).toList = '×' :: ['4', ')'] := by decide
  have power : (String.join ["^2"]).toList = '^' :: ['2'] := by decide
  exact ⟨answered, valued, positiveAnswered, positiveValued, finite, positiveFinite, unsigned,
    (result_continued answered valued finite product).1 (by decide),
    ((result_continued answered valued finite power).2 rfl).2 "3" rfl,
    ((result_continued positiveAnswered positiveValued positiveFinite power).2 rfl).1 unsigned⟩

end Display

end Keypad
