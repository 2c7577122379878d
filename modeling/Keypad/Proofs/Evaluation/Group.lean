import Keypad.Proofs.Evaluation.Position
import Keypad.Proofs.Number.ReadBack
import Keypad.Proofs.Postfix.Stack

/-!
# Groups stand for their values

A group can be exchanged for the written value of its inside, in whatever text it stands
(`group_eq_written_value`). The surroundings need not be well formed: parentheses cut the text into
pieces that are read for themselves, the inside puts out its items whatever is pending in front of
it, and these items put their value on whatever is on the stack.
-/

namespace Keypad.Evaluation

open Postfix

theorem ofTokens_group {inside : List Token} {items : List Item}
    (ordered : Postfix.ofTokens inside = .ok items) {opening closing : Token}
    (opens : opening.lexeme = .leftParen) (closes : closing.lexeme = .rightParen)
    (before after : List Token) :
    ofTokens (before ++ (opening :: inside ++ [closing] ++ after)) = (do
      let (emitted, middle) ← State.initial.run before
      let rest ← State.items ⟨(Pending.applied middle.pending).2, false⟩ after
      Postfix.evaluate (emitted ++ (items ++ ((Pending.applied middle.pending).1 ++ rest)))) := by
  rw [ofTokens, Postfix.ofTokens, State.items_append]
  cases State.initial.run before with
  | error failure => rfl
  | ok result =>
    obtain ⟨emitted, middle⟩ := result
    change ((middle.items _ >>= fun rest => pure (emitted ++ rest)) >>= _) = _
    rw [State.items_append, State.run_group ordered opens closes]
    change ((State.items _ after >>= fun rest => pure _) >>= fun rest => pure _) >>= _ = _
    simp only [bind_assoc, pure_bind, List.append_assoc]
    rfl

theorem ofTokens_group_exchange {inside other : List Token} {value : Float}
    (valued : ofTokens inside = .ok value) (same : ofTokens other = .ok value)
    {opening closing : Token} (opens : opening.lexeme = .leftParen)
    (closes : closing.lexeme = .rightParen) (before after : List Token) :
    ofTokens (before ++ (opening :: inside ++ [closing] ++ after)) =
      ofTokens (before ++ (opening :: other ++ [closing] ++ after)) := by
  rw [ofTokens] at valued same
  obtain ⟨items, ordered, evaluated⟩ := ok_of_bind valued
  obtain ⟨otherItems, otherOrdered, otherEvaluated⟩ := ok_of_bind same
  rw [ofTokens_group ordered opens closes, ofTokens_group otherOrdered opens closes]
  simp only [evaluate_exchange evaluated otherEvaluated]

theorem ofLexemes_group_exchange {inside other : List Lexeme} {value : Float}
    (valued : ofLexemes inside = .ok value) (same : ofLexemes other = .ok value)
    (before after : List Lexeme) :
    ofLexemes (before ++ .leftParen :: (inside ++ .rightParen :: after)) =
      ofLexemes (before ++ .leftParen :: (other ++ .rightParen :: after)) := by
  have exchanged := ofTokens_group_exchange valued same
    (show Lexeme.leftParen.token.lexeme = .leftParen from rfl)
    (show Lexeme.rightParen.token.lexeme = .rightParen from rfl)
    (before.map Lexeme.token) (after.map Lexeme.token)
  simpa [ofLexemes] using exchanged

/-- The reading of a text with a group in it. What stands behind the inside is read together with
    the closing parenthesis. -/
theorem reading_group (before after : List Char) :
    ∃ rest, ∀ inside, Lexeme.reading (before ++ '(' :: (inside ++ ')' :: after)) = do
      let front ← Lexeme.reading before
      let lexemes ← Lexeme.reading inside
      let back ← rest
      return front ++ .leftParen :: (lexemes ++ .rightParen :: back) := by
  obtain ⟨rest, closing⟩ :=
    Lexeme.reading_sign (show Canonical.isOperandChar ')' = false from rfl) after
  refine ⟨rest, fun inside => ?_⟩
  have opening := Lexeme.reading_cons_sign (show Canonical.isOperandChar '(' = false from rfl)
    (by decide) (inside ++ ')' :: after)
  have opened : Lexeme.ofRun 0 ⟨Canonical.asciiSymbol '(', []⟩ = .ok .leftParen := rfl
  have closed : Lexeme.ofRun 0 ⟨Canonical.asciiSymbol ')', []⟩ = .ok .rightParen := rfl
  rw [opened] at opening
  rw [closed] at closing
  rw [Lexeme.reading_append_sign rfl, opening, Lexeme.reading_append_sign rfl inside, closing]
  change (Lexeme.reading before >>= fun front =>
    (((Lexeme.reading inside >>= fun lexemes => (rest >>= fun back => pure (.rightParen :: back)) >>=
      fun back => pure (lexemes ++ back)) >>= fun lexemes => pure (.leftParen :: lexemes)) >>=
      fun back => pure (front ++ back))) = _
  simp only [bind_assoc, pure_bind]

theorem evaluate_write {number : Float} (finite : number.isFinite = true) (zero : number ≠ -0) :
    Lexeme.reading (Number.Style.display.write number).toList >>= ofLexemes = .ok number := by
  cases sign : Binary64.signBit number with
  | false =>
    rw [Number.reading_write_of_positive .display finite sign]
    rfl
  | true =>
    have opposite := Binary64.neg_toFloat_ofFloat finite sign
    have nonzero : Binary64.ofFloat number ≠ 0 := by
      intro isZero
      rw [isZero] at opposite
      exact zero opposite.symm
    rw [Number.Style.write_of_negative .display finite sign nonzero,
      Lexeme.reading_cons_sign rfl (by decide),
      Number.reading_shortest (Binary64.ofFloat_lt_infinity finite)]
    change Except.ok (-Binary64.toFloat (Binary64.ofFloat number)) = _
    rw [opposite]

/-- A group evaluates like a group around the written value of its inside, in every surrounding
    text, and failures differ in nothing but their position. -/
theorem group_eq_written_value {text : String} {value : Float} (valued : ofText text = .ok value)
    (finite : value.isFinite = true) (zero : value ≠ -0) (before after : String) :
    (ofText (before ++ "(" ++ text ++ ")" ++ after)).mapError Failure.withoutPosition =
      (ofText (before ++ "(" ++ Number.Style.display.write value ++ ")" ++ after)).mapError
        Failure.withoutPosition := by
  have read := withoutPosition_ofText text
  rw [valued] at read
  obtain ⟨lexemes, inside, evaluated⟩ := ok_of_bind read.symm
  obtain ⟨otherLexemes, other, otherEvaluated⟩ := ok_of_bind (evaluate_write finite zero)
  obtain ⟨rest, reading⟩ := reading_group before.toList after.toList
  rw [withoutPosition_ofText, withoutPosition_ofText]
  simp only [String.toList_append, List.append_assoc]
  change Lexeme.reading (before.toList ++ '(' :: (text.toList ++ ')' :: after.toList)) >>= _ =
    Lexeme.reading (before.toList ++
      '(' :: ((Number.Style.display.write value).toList ++ ')' :: after.toList)) >>= _
  rw [reading, reading, inside, other]
  simp only [bind_assoc, pure_bind]
  change (Lexeme.reading before.toList >>= fun front => rest >>= fun back => ofLexemes _) =
    (Lexeme.reading before.toList >>= fun front => rest >>= fun back => ofLexemes _)
  simp only [ofLexemes_group_exchange evaluated otherEvaluated]

/-- The negative value of a difference is taken as the argument of a bare function, with a
    parenthesis too many behind it. -/
theorem group_eq_written_value_of_difference :
    ofText "1-4" = .ok (-3) ∧ (-3 : Float).isFinite = true ∧ (-3 : Float) ≠ -0 ∧
      (ofText ("2^ln" ++ "(" ++ "1-4" ++ ")" ++ "*2)")).mapError Failure.withoutPosition =
        (ofText ("2^ln" ++ "(" ++ Number.Style.display.write (-3) ++ ")" ++ "*2)")).mapError
          Failure.withoutPosition := by
  have valued : ofText "1-4" = .ok (-3) := ok_of_toOption (by decide +kernel)
  have finite : (-3 : Float).isFinite = true := by decide
  have zero : (-3 : Float) ≠ -0 := by decide
  exact ⟨valued, finite, zero, group_eq_written_value valued finite zero "2^ln" "*2)"⟩

end Keypad.Evaluation
