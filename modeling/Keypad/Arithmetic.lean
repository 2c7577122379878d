import Keypad.Angle
import Keypad.Failure
import Keypad.Operator

/-!
# Arithmetic

What operations and functions do to numbers, and where they are undefined.
-/

namespace Keypad

/-- Dividing by either zero is a failure. -/
def Operation.apply (operation : Operation) (left right : Float) : Except Failure Float :=
  match operation with
  | .add => .ok (left + right)
  | .subtract => .ok (left - right)
  | .multiply => .ok (left * right)
  | .divide => if right == 0 then .error .divisionByZero else .ok (left / right)
  | .power => .ok (left.pow right)

theorem Operation.failure_of_apply {operation : Operation} {left right : Float} {failure : Failure}
    (failed : operation.apply left right = .error failure) : failure = .divisionByZero := by
  cases operation with
  | divide =>
    rw [Operation.apply] at failed
    split at failed
    · cases failed
      rfl
    · cases failed
  | _ => cases failed

namespace UnaryFunction

/-- Logarithms are defined for arguments above zero, which NaN is not. -/
def requirePositive (function : UnaryFunction) (argument : Float) : Except Failure Float :=
  if 0 < argument then .ok argument else .error (.domainError function argument)

def apply (function : UnaryFunction) (argument : Float) : Except Failure Float :=
  match function with
  | .sin => .ok (Degrees.toRadians ⟨argument⟩).sin
  | .cos => .ok (Degrees.toRadians ⟨argument⟩).cos
  | .tan => .ok (Degrees.toRadians ⟨argument⟩).tan
  | .log => (function.requirePositive argument).map Float.log10
  | .ln => (function.requirePositive argument).map Float.log

theorem failure_of_apply {f : UnaryFunction} {argument : Float} {failure : Failure}
    (failed : f.apply argument = .error failure) : failure = .domainError f argument := by
  cases f with
  | log | ln =>
    rw [apply, requirePositive] at failed
    split at failed
    · cases failed
    · cases failed
      rfl
  | _ => cases failed

end UnaryFunction

end Keypad
