import Keypad.Canonical
import Keypad.Postfix.Execution
import Keypad.Token.Scan

/-!
# Evaluation

From the text of an expression to its value, and to the text that the display shows for it.
-/

namespace Keypad.Evaluation

/-- The value of a sequence of tokens. -/
def ofTokens (tokens : List Token) : Except Failure Float := do
  Postfix.evaluate (← Postfix.ofTokens tokens)

/-- The value of a text. -/
def ofText (text : String) : Except Failure Float := do
  ofTokens (← Token.scan (Canonical.ofText text))

/-- The text of the value, or the message of the failure. -/
def shown (text : String) : Except String String :=
  match ofText text with
  | .ok value => .ok (Number.Style.display.write value)
  | .error failure => .error failure.message

end Keypad.Evaluation
