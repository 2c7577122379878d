import Keypad.Postfix.Execution

/-!
# What items do to the stack

Items see no more of the stack than they need: a run goes through in the same way on a deeper stack
(`execute_frame`). So the items of an expression put its value on any stack, and can be exchanged
for other items with this value (`evaluate_exchange`). By how much the stack grows depends on the
items only (`length_execute`).
-/

namespace Keypad.Postfix

/-- By how much an item makes the stack grow. -/
def Item.gain : Item → Int
  | number _ => 1
  | operator _ => -1
  | _ => 0

def gain : List Item → Int
  | [] => 0
  | item :: items => item.gain + gain items

@[simp] theorem gain_nil : gain [] = 0 := rfl

@[simp] theorem gain_cons (item : Item) (items : List Item) :
    gain (item :: items) = item.gain + gain items := rfl

@[simp] theorem gain_append (items later : List Item) :
    gain (items ++ later) = gain items + gain later := by
  induction items with
  | nil => simp
  | cons item items inductionHypothesis => simp [inductionHypothesis, Int.add_assoc]

theorem execute_append (items later : List Item) (stack : List Float) :
    execute (items ++ later) stack = execute items stack >>= execute later := by
  induction items generalizing stack with
  | nil => rfl
  | cons item items inductionHypothesis =>
    simp only [List.cons_append, execute, inductionHypothesis, bind_assoc]

/-- What an item finds and leaves on top of a stack. -/
theorem execute_item_inv {item : Item} {stack result : List Float}
    (ran : item.execute stack = .ok result) :
    ∃ operands value below, stack = operands ++ below ∧ result = value :: below ∧
      (operands.length : Int) + item.gain = 1 ∧
      ∀ other, item.execute (operands ++ other) = .ok (value :: other) := by
  cases item with
  | number value =>
    cases ran
    exact ⟨[], value, stack, rfl, rfl, rfl, fun _ => rfl⟩
  | negation =>
    cases stack with
    | nil => cases ran
    | cons argument below =>
      cases ran
      exact ⟨[argument], -argument, below, rfl, rfl, rfl, fun _ => rfl⟩
  | function f =>
    cases stack with
    | nil => cases ran
    | cons argument below =>
      change (f.apply argument).map _ = _ at ran
      cases applied : f.apply argument with
      | error failure =>
        rw [applied] at ran
        cases ran
      | ok value =>
        rw [applied] at ran
        cases ran
        refine ⟨[argument], value, below, rfl, rfl, rfl, fun other => ?_⟩
        change (f.apply argument).map _ = _
        rw [applied]
        rfl
  | operator op =>
    match stack with
    | [] => cases ran
    | [_] => cases ran
    | right :: left :: below =>
      change (op.operation.apply left right).map _ = _ at ran
      cases applied : op.operation.apply left right with
      | error failure =>
        rw [applied] at ran
        cases ran
      | ok value =>
        rw [applied] at ran
        cases ran
        refine ⟨[right, left], value, below, rfl, rfl, rfl, fun other => ?_⟩
        change (op.operation.apply left right).map _ = _
        rw [applied]
        rfl

theorem execute_frame {items : List Item} {stack result : List Float}
    (ran : execute items stack = .ok result) (below : List Float) :
    execute items (stack ++ below) = .ok (result ++ below) := by
  induction items generalizing stack with
  | nil =>
    cases ran
    rfl
  | cons item items inductionHypothesis =>
    rw [execute] at ran
    obtain ⟨next, stepped, continued⟩ := ok_of_bind ran
    obtain ⟨operands, value, rest, rfl, rfl, -, framed⟩ := execute_item_inv stepped
    rw [List.append_assoc, execute, framed]
    exact inductionHypothesis continued

theorem length_execute {items : List Item} {stack result : List Float}
    (ran : execute items stack = .ok result) :
    (result.length : Int) = stack.length + gain items := by
  induction items generalizing stack with
  | nil =>
    cases ran
    simp
  | cons item items inductionHypothesis =>
    rw [execute] at ran
    obtain ⟨next, stepped, continued⟩ := ok_of_bind ran
    obtain ⟨operands, value, rest, rfl, rfl, consumed, -⟩ := execute_item_inv stepped
    rw [inductionHypothesis continued, gain_cons, List.length_append, List.length_cons]
    push_cast
    omega

/-! ## Failures -/

/-- How many operands an item takes from the stack. -/
def Item.arity : Item → Nat
  | number _ => 0
  | operator _ => 2
  | function _ => 1
  | negation => 1

/-- An item finds its operands on the stack, but has no result for them. -/
inductive Item.Undefined : List Float → Item → Failure → Prop where
  | operator {op : Operator} {left right : Float} {failure : Failure}
      (failed : op.operation.apply left right = .error failure) (below : List Float) :
      Undefined (right :: left :: below) (.operator op) failure
  | function {f : UnaryFunction} {argument : Float} {failure : Failure}
      (failed : f.apply argument = .error failure) (below : List Float) :
      Undefined (argument :: below) (.function f) failure

theorem Item.Undefined.failure {item : Item} {stack : List Float} {failure : Failure}
    (undefined : item.Undefined stack failure) :
    failure = .divisionByZero ∨ ∃ f argument, failure = .domainError f argument := by
  cases undefined with
  | operator failed => exact .inl (Operation.failure_of_apply failed)
  | function failed => exact .inr ⟨_, _, UnaryFunction.failure_of_apply failed⟩

/-- Items fail by themselves: an operand is missing, or their arithmetic is undefined. -/
theorem itemExecute_eq_error_iff {item : Item} {stack : List Float} {failure : Failure} :
    item.execute stack = .error failure ↔
      (stack.length < item.arity ∧ failure = .malformedExpression) ∨
        item.Undefined stack failure := by
  constructor
  · intro failed
    match item, stack with
    | .number value, _ => cases failed
    | .operator op, [] | .operator op, [_] | .function f, [] | .negation, [] =>
      cases failed
      exact .inl ⟨by simp [Item.arity], rfl⟩
    | .operator op, right :: left :: below =>
      exact .inr (.operator (map_eq_error_iff.mp failed) below)
    | .function f, argument :: below => exact .inr (.function (map_eq_error_iff.mp failed) below)
    | .negation, argument :: below => cases failed
  · rintro (⟨short, rfl⟩ | undefined)
    · match item, stack with
      | .number value, _ => cases short
      | .operator op, [] | .operator op, [_] | .function f, [] | .negation, [] => rfl
      | .operator op, right :: left :: below =>
        simp only [List.length_cons, Item.arity] at short
        omega
      | .function f, argument :: below => simp [Item.arity] at short
      | .negation, argument :: below => simp [Item.arity] at short
    · cases undefined with
      | operator failed below => exact map_eq_error_iff.mpr failed
      | function failed below => exact map_eq_error_iff.mpr failed

theorem execute_eq_foldlM (items : List Item) (stack : List Float) :
    execute items stack = items.foldlM Item.execute stack := by
  induction items generalizing stack with
  | nil => rfl
  | cons item items inductionHypothesis =>
    rw [execute, List.foldlM_cons]
    exact bind_congr inductionHypothesis

theorem failure_of_execute {items : List Item} {stack : List Float} {failure : Failure}
    (failed : execute items stack = .error failure) :
    failure = .malformedExpression ∨ failure = .divisionByZero ∨
      ∃ f argument, failure = .domainError f argument := by
  rw [execute_eq_foldlM, foldlM_eq_error_iff] at failed
  obtain ⟨before, item, after, reached, -, -, fails⟩ := failed
  obtain ⟨-, malformed⟩ | undefined := itemExecute_eq_error_iff.mp fails
  · exact .inl malformed
  · exact .inr undefined.failure

theorem failure_of_evaluate {items : List Item} {failure : Failure}
    (failed : evaluate items = .error failure) :
    failure = .malformedExpression ∨ failure = .divisionByZero ∨
      ∃ f argument, failure = .domainError f argument := by
  rw [evaluate] at failed
  obtain running | ⟨stack, -, ended⟩ := error_of_bind failed
  · exact failure_of_execute running
  · match stack with
    | [_] => cases ended
    | [] | _ :: _ :: _ =>
      cases ended
      exact .inl rfl

theorem execute_of_evaluate {items : List Item} {value : Float}
    (valued : evaluate items = .ok value) : execute items [] = .ok [value] := by
  rw [evaluate] at valued
  obtain ⟨stack, ran, single⟩ := ok_of_bind valued
  match stack with
  | [] => cases single
  | [_] =>
    cases single
    exact ran
  | _ :: _ :: _ => cases single

theorem gain_of_evaluate {items : List Item} {value : Float}
    (valued : evaluate items = .ok value) : gain items = 1 := by
  have grown := length_execute (execute_of_evaluate valued)
  simpa using grown.symm

theorem evaluate_exchange {items other : List Item} {value : Float}
    (valued : evaluate items = .ok value) (same : evaluate other = .ok value)
    (before after : List Item) :
    evaluate (before ++ (items ++ after)) = evaluate (before ++ (other ++ after)) := by
  have exchanged (stack : List Float) :
      execute (items ++ after) stack = execute (other ++ after) stack := by
    have ran := execute_frame (execute_of_evaluate valued) stack
    have otherRan := execute_frame (execute_of_evaluate same) stack
    rw [List.nil_append] at ran otherRan
    rw [execute_append, execute_append, ran, otherRan]
  have continued : execute (items ++ after) = execute (other ++ after) := funext exchanged
  rw [evaluate, evaluate, execute_append, execute_append, continued]

end Keypad.Postfix
