import Keypad.Evaluation
import Keypad.Proofs.Postfix.Run
import Keypad.Proofs.Postfix.Stack
import Keypad.Proofs.Token.Reading

/-!
# Positions

Positions are only reported, never looked at. An expression has the same value wherever its tokens
stand, and apart from the position it fails in the same way (`withoutPosition_ofTokens`). Hence the
reading of a text decides its value (`withoutPosition_ofText`).
-/

namespace Keypad

/-- A lexeme as a token at the start. -/
def Lexeme.token (lexeme : Lexeme) : Token :=
  ⟨lexeme, ⟨0, 0⟩⟩

namespace Postfix

def Pending.withoutPosition : Pending → Pending
  | item entry => item entry
  | group _ => group 0

def State.withoutPosition (state : State) : State :=
  ⟨state.pending.map Pending.withoutPosition, state.expectsOperand⟩

theorem Pending.withoutPosition_block (items : List Item) :
    (Pending.block items).map Pending.withoutPosition = Pending.block items := by
  rw [Pending.block, List.map_map]
  rfl

theorem Pending.applied_withoutPosition (outer : List Pending) :
    Pending.applied (outer.map Pending.withoutPosition) =
      ((Pending.applied outer).1, (Pending.applied outer).2.map Pending.withoutPosition) := by
  match outer with
  | [] => rfl
  | .group _ :: _ => rfl
  | .item entry :: _ => cases entry <;> rfl

theorem Pending.claimsBefore_withoutPosition (op : Operator) :
    Pending.claimsBefore op ∘ Pending.withoutPosition = Pending.claimsBefore op := by
  funext pending
  cases pending <;> rfl

theorem Pending.item?_withoutPosition :
    Pending.item? ∘ Pending.withoutPosition = Pending.item? := by
  funext pending
  cases pending <;> rfl

namespace State

theorem release_withoutPosition (state : State) (op : Operator) :
    state.withoutPosition.release op =
      ((state.release op).1, (state.release op).2.withoutPosition) := by
  simp only [release, withoutPosition, List.takeWhile_map, List.dropWhile_map, List.filterMap_map,
    Pending.claimsBefore_withoutPosition, Pending.item?_withoutPosition]

theorem closeGroup_withoutPosition (state : State) (position : Nat) :
    (state.closeGroup position).mapError Failure.withoutPosition >>=
        (fun result => .ok (result.1, result.2.withoutPosition)) =
      state.withoutPosition.closeGroup 0 := by
  obtain ⟨pending, expects⟩ := state
  obtain ⟨items, rfl⟩ | ⟨inner, start, outer, rfl⟩ := block_or_group pending
  · rw [withoutPosition, Pending.withoutPosition_block, closeGroup_block, closeGroup_block]
    rfl
  · rw [withoutPosition, List.map_append, List.map_cons, Pending.withoutPosition_block,
      Pending.withoutPosition, closeGroup_group, closeGroup_group, Pending.applied_withoutPosition]
    rfl

theorem step_withoutPosition (state : State) (token : Token) :
    (state.step token).mapError Failure.withoutPosition >>=
        (fun result => .ok (result.1, result.2.withoutPosition)) =
      state.withoutPosition.step token.lexeme.token := by
  obtain ⟨lexeme, span⟩ := token
  cases lexeme with
  | number value => rfl
  | leftParen => rfl
  | word name =>
    simp only [step, Lexeme.token]
    cases UnaryFunction.ofName? name <;> rfl
  | operator op =>
    simp only [step, Lexeme.token, release_withoutPosition]
    change _ = if (state.expectsOperand && op.operation == .subtract) = true then _ else _
    split <;> rfl
  | rightParen => exact closeGroup_withoutPosition state span.start

theorem finish_withoutPosition (state : State) :
    state.finish.mapError Failure.withoutPosition = state.withoutPosition.finish := by
  obtain ⟨pending, expects⟩ := state
  obtain ⟨items, rfl⟩ | ⟨inner, start, outer, rfl⟩ := block_or_group pending
  · rw [withoutPosition, Pending.withoutPosition_block, finish_block]
    rfl
  · rw [withoutPosition, List.map_append, List.map_cons, Pending.withoutPosition_block,
      Pending.withoutPosition, finish_group, finish_group]
    rfl

theorem items_withoutPosition (state : State) (tokens : List Token) :
    (state.items tokens).mapError Failure.withoutPosition =
      state.withoutPosition.items (tokens.map fun token => token.lexeme.token) := by
  induction tokens generalizing state with
  | nil => exact finish_withoutPosition state
  | cons token tokens inductionHypothesis =>
    rw [List.map_cons, items, items, ← step_withoutPosition, mapError_bind, bind_assoc]
    congr 1
    funext result
    obtain ⟨emitted, next⟩ := result
    change ((next.items tokens) >>= _).mapError _ = next.withoutPosition.items _ >>= _
    rw [mapError_bind, inductionHypothesis]
    rfl

end State

/-- What is wrong with items has no position. -/
theorem withoutPosition_evaluate (items : List Item) :
    (evaluate items).mapError Failure.withoutPosition = evaluate items := by
  cases evaluated : evaluate items with
  | ok value => rfl
  | error failure =>
    obtain rfl | rfl | ⟨f, argument, rfl⟩ := failure_of_evaluate evaluated <;> rfl

end Postfix

namespace Evaluation

/-- The value of a sequence of lexemes, apart from positions. -/
def ofLexemes (lexemes : List Lexeme) : Except Failure Float :=
  ofTokens (lexemes.map Lexeme.token)

theorem withoutPosition_ofTokens (tokens : List Token) :
    (ofTokens tokens).mapError Failure.withoutPosition =
      ofLexemes (tokens.map Token.lexeme) := by
  have ordered := Postfix.State.items_withoutPosition .initial tokens
  rw [ofLexemes, ofTokens, ofTokens, mapError_bind, Postfix.ofTokens, ordered, List.map_map]
  simp only [Postfix.withoutPosition_evaluate]
  rfl

theorem withoutPosition_ofText (text : String) :
    (ofText text).mapError Failure.withoutPosition =
      Lexeme.reading text.toList >>= ofLexemes := by
  rw [ofText, mapError_bind, ← Lexeme.withoutPosition_scan]
  cases Token.scan (Canonical.ofText text) with
  | error failure => rfl
  | ok tokens => exact withoutPosition_ofTokens tokens

end Evaluation

end Keypad
