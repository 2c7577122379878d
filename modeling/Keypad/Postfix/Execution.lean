import Keypad.Arithmetic
import Keypad.Postfix

/-!
# Execution of postfix items

Items run on a stack of numbers. The value of a list of items is the one number that is left.
-/

namespace Keypad.Postfix

/-- Runs one item on the stack, whose top comes first. -/
def Item.execute (stack : List Float) (item : Item) : Except Failure (List Float) :=
  match item, stack with
  | .number value, _ => .ok (value :: stack)
  | .operator op, right :: left :: below => (op.operation.apply left right).map (· :: below)
  | .function f, argument :: below => (f.apply argument).map (· :: below)
  | .negation, argument :: below => .ok (-argument :: below)
  | _, _ => .error .malformedExpression

/-- Runs items in order. -/
def execute : List Item → List Float → Except Failure (List Float)
  | [], stack => .ok stack
  | item :: later, stack => do
    let next ← item.execute stack
    execute later next

theorem execute_number (value : Float) (later : List Item) (stack : List Float) :
    execute (.number value :: later) stack = execute later (value :: stack) := rfl

theorem execute_operator (op : Operator) (later : List Item) (left right : Float)
    (below : List Float) :
    execute (.operator op :: later) (right :: left :: below) =
      (op.operation.apply left right).bind fun value => execute later (value :: below) := by
  change (Except.map _ (op.operation.apply left right)).bind _ = _
  cases op.operation.apply left right <;> rfl

theorem execute_function (f : UnaryFunction) (later : List Item) (argument : Float)
    (below : List Float) :
    execute (.function f :: later) (argument :: below) =
      (f.apply argument).bind fun value => execute later (value :: below) := by
  change (Except.map _ (f.apply argument)).bind _ = _
  cases f.apply argument <;> rfl

theorem execute_negation (later : List Item) (argument : Float) (below : List Float) :
    execute (.negation :: later) (argument :: below) = execute later (-argument :: below) := rfl

/-- The value of an expression in postfix order. -/
def evaluate (items : List Item) : Except Failure Float := do
  match ← execute items [] with
  | [value] => return value
  | _ => throw .malformedExpression

end Keypad.Postfix
