import Keypad.Number
import Keypad.UnaryFunction

/-!
# Failures

Why an expression has no value, and the message for each cause. Positions are byte offsets into the
canonical text.
-/

namespace Keypad

/-- The cause of a failure. The first one met ends the evaluation. -/
inductive Failure where
  | invalidCharacter (character : Char) (position : Nat)
  | unmatchedRightParen (position : Nat)
  | unclosedLeftParen (position : Nat)
  | invalidNumber (numeral : String)
  | unknownFunction (name : String)
  | divisionByZero
  | domainError (function : UnaryFunction) (argument : Float)
  | malformedExpression
deriving DecidableEq, Repr

namespace Failure

/-- The classes of failures that reports name. -/
inductive Kind where
  | invalidCharacter
  | syntaxError
  | unknownFunction
  | divisionByZero
  | domainError
  | malformedExpression
deriving DecidableEq, Repr

def Kind.name : Kind → String
  | invalidCharacter => "InvalidCharacter"
  | syntaxError => "SyntaxError"
  | unknownFunction => "UnknownFunction"
  | divisionByZero => "DivisionByZero"
  | domainError => "DomainError"
  | malformedExpression => "MalformedExpression"

def kind : Failure → Kind
  | invalidCharacter _ _ => .invalidCharacter
  | unmatchedRightParen _ => .syntaxError
  | unclosedLeftParen _ => .syntaxError
  | invalidNumber _ => .syntaxError
  | unknownFunction _ => .unknownFunction
  | divisionByZero => .divisionByZero
  | domainError _ _ => .domainError
  | malformedExpression => .malformedExpression

/-- What the display shows for a failure. -/
def message : Failure → String
  | invalidCharacter _ _ => "Invalid character detected"
  | unmatchedRightParen position => "Syntax error: unmatched ')' at position " ++ position.repr
  | unclosedLeftParen position => "Syntax error: unclosed '(' at position " ++ position.repr
  | invalidNumber numeral => "Syntax error: invalid number literal '" ++ numeral ++ "'"
  | unknownFunction name => "Unknown function '" ++ name ++ "'"
  | divisionByZero => "Division by zero"
  | domainError function argument =>
    "Domain error: " ++ function.name ++ " is undefined for " ++
      Number.Style.listing.write argument
  | malformedExpression => "Malformed expression"

end Failure

theorem ok_of_toOption {α : Type} {result : Except Failure α} {value : α}
    (shown : result.toOption = some value) : result = .ok value := by
  cases result with
  | error failure => cases shown
  | ok other =>
    cases shown
    rfl

theorem ok_of_bind {α β : Type} {result : Except Failure α} {later : α → Except Failure β}
    {value : β} (bound : result >>= later = .ok value) :
    ∃ first, result = .ok first ∧ later first = .ok value := by
  cases result with
  | error failure => cases bound
  | ok first => exact ⟨first, rfl, bound⟩

theorem error_of_bind {α β : Type} {result : Except Failure α} {later : α → Except Failure β}
    {failure : Failure} (failed : result >>= later = .error failure) :
    result = .error failure ∨ ∃ first, result = .ok first ∧ later first = .error failure := by
  cases result with
  | error other =>
    cases failed
    exact .inl rfl
  | ok first => exact .inr ⟨first, rfl, failed⟩

theorem map_eq_ok_iff {α β : Type} {result : Except Failure α} {f : α → β} {value : β} :
    result.map f = .ok value ↔ ∃ first, result = .ok first ∧ f first = value := by
  cases result <;> simp [Except.map]

theorem map_eq_error_iff {α β : Type} {result : Except Failure α} {f : α → β} {failure : Failure} :
    result.map f = .error failure ↔ result = .error failure := by
  cases result <;> simp [Except.map]

/-- Steps fail at the first one that does. -/
theorem foldlM_eq_error_iff {σ α : Type} {step : σ → α → Except Failure σ} {elements : List α}
    {state : σ} {failure : Failure} :
    elements.foldlM step state = .error failure ↔
      ∃ before element after reached, elements = before ++ element :: after ∧
        before.foldlM step state = .ok reached ∧ step reached element = .error failure := by
  constructor
  · intro failed
    induction elements generalizing state with
    | nil => cases failed
    | cons element later inductionHypothesis =>
      rw [List.foldlM_cons] at failed
      obtain here | ⟨next, stepped, failedLater⟩ := error_of_bind failed
      · exact ⟨[], element, later, state, rfl, rfl, here⟩
      · obtain ⟨before, first, after, reached, rfl, ran, fails⟩ := inductionHypothesis failedLater
        refine ⟨element :: before, first, after, reached, rfl, ?_, fails⟩
        rw [List.foldlM_cons, stepped]
        exact ran
  · rintro ⟨before, element, after, reached, rfl, ran, fails⟩
    rw [List.foldlM_append, ran]
    change (List.foldlM step reached (element :: after)) = _
    rw [List.foldlM_cons, fails]
    rfl

theorem mapError_bind {α β : Type} (result : Except Failure α) (later : α → Except Failure β)
    (adjust : Failure → Failure) :
    (result >>= later).mapError adjust =
      result.mapError adjust >>= fun value => (later value).mapError adjust := by
  cases result <;> rfl

end Keypad
