import Keypad.Proofs.Expression.Place

/-!
# Neighbours

Which lexemes stand beside each other. In a phrase no operand stands beside another one
(`Completes.not_sideBySide`), and none is missing (`Completes.not_lacksOperand`).
-/

namespace Keypad

namespace Lexeme

def startsOperand : Lexeme → Bool
  | number _ => true
  | word _ => true
  | leftParen => true
  | _ => false

def endsOperand : Lexeme → Bool
  | number _ => true
  | rightParen => true
  | _ => false

end Lexeme

namespace Expression

/-- Somewhere an operand ends and the next one begins. -/
def SideBySide (lexemes : List Lexeme) : Prop :=
  ∃ front left right back, lexemes = front ++ left :: right :: back ∧
    left.endsOperand = true ∧ right.startsOperand = true

/-- An operand is missing: at the end, in front of an operator that is no sign, or in a group. -/
def LacksOperand (lexemes : List Lexeme) : Prop :=
  (∃ front op, lexemes = front ++ [.operator op]) ∨
    (∃ front op back, lexemes = front ++ .operator op :: back ∧ op ≠ .subtract ∧
      ∀ last ∈ front.getLast?, last.endsOperand = false) ∨
    ∃ front back, lexemes = front ++ .leftParen :: .rightParen :: back

theorem SideBySide.cons {later : List Lexeme} (adjacent : SideBySide later) (lexeme : Lexeme) :
    SideBySide (lexeme :: later) := by
  obtain ⟨front, left, right, back, rfl, ends, starts⟩ := adjacent
  exact ⟨lexeme :: front, left, right, back, rfl, ends, starts⟩

theorem Completes.behind {place : Place} {front back : List Lexeme} {last : Lexeme}
    (completes : Completes place (front ++ last :: back)) :
    ∃ depth, Completes ⟨depth, !last.endsOperand⟩ back := by
  induction front generalizing place with
  | nil =>
    cases completes with
    | take taken rest => cases taken <;> exact ⟨_, rest⟩
  | cons first front inductionHypothesis =>
    cases completes with
    | take taken rest => exact inductionHypothesis rest

theorem Completes.not_sideBySide {place : Place} {lexemes : List Lexeme}
    (completes : Completes place lexemes) : ¬ SideBySide lexemes := by
  rintro ⟨front, left, right, back, rfl, ends, starts⟩
  obtain ⟨depth, rest⟩ := completes.behind
  rw [ends] at rest
  cases rest with
  | take taken _ => cases taken <;> cases starts

theorem Completes.not_lacksOperand {depth : Nat} {lexemes : List Lexeme}
    (completes : Completes ⟨depth, true⟩ lexemes) : ¬ LacksOperand lexemes := by
  rintro (⟨front, op, rfl⟩ | ⟨front, op, back, rfl, unsigned, position⟩ | ⟨front, back, rfl⟩)
  · obtain ⟨depth, rest⟩ := completes.behind
    cases rest
  · have expecting : ∃ depth, Completes ⟨depth, true⟩ (.operator op :: back) := by
      obtain rfl | ⟨earlier, last, rfl⟩ := List.eq_nil_or_concat front
      · exact ⟨depth, completes⟩
      · rw [List.concat_eq_append, List.append_assoc] at completes
        have unended := position last (by simp)
        have rest := completes.behind
        rwa [unended] at rest
    obtain ⟨depth, rest⟩ := expecting
    cases rest with
    | take taken _ =>
      cases taken
      exact unsigned rfl
  · obtain ⟨depth, rest⟩ := completes.behind
    cases rest with
    | take taken _ => cases taken

end Expression

end Keypad
