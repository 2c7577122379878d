import Keypad.Display
import Keypad.Json

/-!
# Reports

What is printed for an expression and for the state of the display, one line each.
-/

namespace Keypad.Report

/-- Lines are plain text or JSON objects. -/
inductive Format where
  | plain
  | json
deriving DecidableEq, Repr

/-- The line for an expression. -/
def ofExpression (format : Format) (text : String) : String :=
  match format with
  | .plain =>
    match Evaluation.shown text with
    | .ok result => result
    | .error message => "Error: " ++ message
  | .json =>
    match Evaluation.ofText text with
    | .ok value =>
      Json.writeObject
        [("input", .text text), ("result", .text (Number.Style.display.write value))]
    | .error failure =>
      Json.writeObject
        [("input", .text text), ("error", .text failure.message),
          ("kind", .text failure.kind.name)]

/-- The line for a state of the display. -/
def ofDisplay (format : Format) (display : Display) : String :=
  match format with
  | .plain => display.text
  | .json =>
    Json.writeObject [("display", .text display.text), ("error", .truth display.showsError)]

/-- Lines with their ends. -/
def ofLines (lines : List String) : String :=
  String.join (lines.map (· ++ "\n"))

/-- The lines for expressions, in order and whatever fails. -/
def batch (format : Format) (texts : List String) : String :=
  ofLines (texts.map (ofExpression format))

/-- Whether the line for an expression reports a value. -/
def succeeds (format : Format) (text : String) : Bool :=
  match format with
  | .plain => (Evaluation.shown text).isOk
  | .json => (Evaluation.ofText text).isOk

/-- Whether all lines of a batch report values. -/
def batchSucceeds (format : Format) (texts : List String) : Bool :=
  texts.all (succeeds format)

/-- Whether every expression has a value. -/
def allSucceed (texts : List String) : Bool :=
  texts.all fun text => (Evaluation.ofText text).isOk

end Keypad.Report
