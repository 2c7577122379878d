import Keypad.Evaluation
import Keypad.Proofs.Postfix.Balance

/-!
# What is accepted

Operands are only counted: an expression has a value when its items leave one number. A missing
operand can therefore be made up for by one too many somewhere else, as in `(1)(2)+`. This needs two
operands side by side, and without them exactly the phrases of the infix grammar are accepted
(`phrase_iff_of_value`).
-/

namespace Keypad.Evaluation

open Postfix Expression

theorem completes_of_value {tokens : List Token} {value : Float}
    (valued : ofTokens tokens = .ok value)
    (common : ∀ op, .operator op ∈ tokens.map Token.lexeme → op ∈ OperatorTable.common.entries)
    (separate : ¬ SideBySide (tokens.map Token.lexeme)) :
    Completes ⟨0, true⟩ (tokens.map Token.lexeme) := by
  rw [ofTokens] at valued
  obtain ⟨items, ordered, evaluated⟩ := ok_of_bind valued
  obtain ⟨emitted, waiting, expects, ran, rfl⟩ := State.run_of_items ordered
  have single := gain_of_evaluate evaluated
  have balanced := State.balance_of_run ran (fun ended => by cases ended) separate common
  have start : State.initial.balance = 1 := rfl
  have waitingItems : Pending.items (Pending.block waiting) = waiting :=
    State.filterMap_block waiting
  have closed : Pending.openGroups (Pending.block waiting) = 0 := by
    have appended := Pending.openGroups_block_append waiting []
    rwa [List.append_nil] at appended
  rw [gain_append] at single
  cases expects with
  | true =>
    rw [start, State.balance_expecting, waitingItems] at balanced
    omega
  | false =>
    rw [start, State.balance_ended, waitingItems] at balanced
    obtain lower | ⟨-, completes⟩ := balanced
    · omega
    · have complete := completes [] (by
        rw [State.place, closed]
        exact .finish)
      rwa [List.append_nil] at complete

/-- An expression with a value is a phrase of the infix grammar exactly if no two operands stand side
    by side in it, and an operand is missing only if they do. -/
theorem phrase_iff_of_value {tokens : List Token} {value : Float}
    (valued : ofTokens tokens = .ok value)
    (common : ∀ op, .operator op ∈ tokens.map Token.lexeme → op ∈ OperatorTable.common.entries) :
    (Phrase .sum (tokens.map Token.lexeme) ↔ ¬ SideBySide (tokens.map Token.lexeme)) ∧
      (LacksOperand (tokens.map Token.lexeme) → SideBySide (tokens.map Token.lexeme)) := by
  have complete := completes_of_value valued common
  refine ⟨⟨?_, ?_⟩, ?_⟩
  · intro derived
    exact (phrase_iff_completes.mp derived).not_sideBySide
  · intro separate
    exact phrase_iff_completes.mpr (complete separate)
  · intro lacks
    by_cases adjacent : SideBySide (tokens.map Token.lexeme)
    · exact adjacent
    · exact absurd lacks (complete adjacent).not_lacksOperand

/-- The tokens of `-(8-2)/3`. -/
def negatedQuotient : List Token :=
  [⟨.operator .subtract, ⟨0, 1⟩⟩, ⟨.leftParen, ⟨1, 2⟩⟩, ⟨.number 8, ⟨2, 3⟩⟩,
    ⟨.operator .subtract, ⟨3, 4⟩⟩, ⟨.number 2, ⟨4, 5⟩⟩, ⟨.rightParen, ⟨5, 6⟩⟩,
    ⟨.operator .divide, ⟨6, 7⟩⟩, ⟨.number 3, ⟨7, 8⟩⟩]

theorem phrase_iff_of_negatedQuotient :
    ofTokens negatedQuotient = .ok (-2) ∧
      (∀ op, .operator op ∈ negatedQuotient.map Token.lexeme →
        op ∈ OperatorTable.common.entries) ∧
      (Phrase .sum (negatedQuotient.map Token.lexeme) ↔
        ¬ SideBySide (negatedQuotient.map Token.lexeme)) ∧
      (LacksOperand (negatedQuotient.map Token.lexeme) →
        SideBySide (negatedQuotient.map Token.lexeme)) := by
  have valued : ofTokens negatedQuotient = .ok (-2) := rfl
  have common : ∀ op, .operator op ∈ negatedQuotient.map Token.lexeme →
      op ∈ OperatorTable.common.entries := by
    intro op member
    rw [OperatorTable.mem_common_iff]
    simp [negatedQuotient] at member
    grind
  exact ⟨valued, common, phrase_iff_of_value valued common⟩

/-- The tokens of `(1)(2)+`. -/
def juxtaposition : List Token :=
  [⟨.leftParen, ⟨0, 1⟩⟩, ⟨.number 1, ⟨1, 2⟩⟩, ⟨.rightParen, ⟨2, 3⟩⟩, ⟨.leftParen, ⟨3, 4⟩⟩,
    ⟨.number 2, ⟨4, 5⟩⟩, ⟨.rightParen, ⟨5, 6⟩⟩, ⟨.operator .add, ⟨6, 7⟩⟩]

theorem juxtaposition_has_value :
    ofTokens juxtaposition = .ok 3 ∧ ¬ Phrase .sum (juxtaposition.map Token.lexeme) := by
  have sum : (1 + 2 : Float) = 3 := by decide +kernel
  have valued : ofTokens juxtaposition = .ok (1 + 2) := rfl
  rw [sum] at valued
  refine ⟨valued, fun derived => ?_⟩
  apply (phrase_iff_completes.mp derived).not_sideBySide
  exact ⟨[.leftParen, .number 1], .rightParen, .leftParen, _, rfl, rfl, rfl⟩

end Keypad.Evaluation
