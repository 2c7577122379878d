import Keypad.Evaluation
import Keypad.Key

/-!
# The display

The display holds the text typed so far, the last result or an error message, and changes with every
key.
-/

namespace Keypad

/-- A text, and whether it is an error message. -/
structure Display where
  text : String
  showsError : Bool
deriving DecidableEq, Repr

namespace Display

def empty : Display := ⟨"", false⟩

/-- Typing replaces an error message and extends any other text. -/
def type (display : Display) (text : String) : Display :=
  if display.showsError then ⟨text, false⟩ else ⟨display.text ++ text, false⟩

/-- Takes the last character away, or the whole of an error message. -/
def eraseLast (display : Display) : Display :=
  if display.showsError then empty
  else ⟨String.ofList display.text.toList.dropLast, false⟩

/-- What calculating answers. An error message answers itself. -/
def outcome (display : Display) : Except String String :=
  if display.showsError then .error display.text else Evaluation.shown display.text

/-- Shows an answer. -/
def ofOutcome : Except String String → Display
  | .ok result => ⟨result, false⟩
  | .error message => ⟨message, true⟩

def calculate (display : Display) : Display :=
  ofOutcome display.outcome

theorem outcome_plain (text : String) :
    (⟨text, false⟩ : Display).outcome = Evaluation.shown text :=
  if_neg Bool.false_ne_true

theorem outcome_error (message : String) : (⟨message, true⟩ : Display).outcome = .error message :=
  if_pos rfl

theorem calculate_of_outcome {display : Display} {result : Except String String}
    (same : display.outcome = result) : display.calculate = ofOutcome result :=
  congrArg ofOutcome same

/-- The display after a key. -/
def press (display : Display) : Key → Display
  | .input text => display.type text
  | .clear => empty
  | .backspace => display.eraseLast
  | .calculate => display.calculate

/-- The answer that a key gives, which only calculating does. -/
def answer? (display : Display) : Key → Option (Except String String)
  | .calculate => some display.outcome
  | _ => none

def pressAll (display : Display) (keys : List Key) : Display :=
  keys.foldl press display

@[simp] theorem pressAll_nil (display : Display) : display.pressAll [] = display := rfl

@[simp] theorem pressAll_cons (display : Display) (key : Key) (keys : List Key) :
    display.pressAll (key :: keys) = (display.press key).pressAll keys := rfl

@[simp] theorem pressAll_append (display : Display) (keys later : List Key) :
    display.pressAll (keys ++ later) = (display.pressAll keys).pressAll later :=
  List.foldl_append

end Display

end Keypad
