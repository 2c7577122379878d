import Keypad.Postfix.Execution

/-!
# Expression trees

An expression as a tree, its value, and its postorder listing. Running the postorder of a tree is
evaluating it (`execute_postorder`), and no two trees have the same postorder
(`postorder_injective`).
-/

namespace Keypad

/-- Trees of binary operators, function calls and negations over numbers. -/
inductive Expression where
  | number (value : Float)
  | binary (operator : Operator) (left right : Expression)
  | call (function : UnaryFunction) (argument : Expression)
  | negate (argument : Expression)
deriving Repr

namespace Expression

/-- Operands are evaluated from left to right, and the first failure is the answer. -/
def evaluate : Expression → Except Failure Float
  | number value => .ok value
  | binary op left right => do
    let leftValue ← left.evaluate
    let rightValue ← right.evaluate
    op.operation.apply leftValue rightValue
  | call f argument => do f.apply (← argument.evaluate)
  | negate argument => do return -(← argument.evaluate)

/-- Every node behind its operands. -/
def postorder : Expression → List Postfix.Item
  | number value => [.number value]
  | binary op left right => left.postorder ++ right.postorder ++ [.operator op]
  | call f argument => argument.postorder ++ [.function f]
  | negate argument => argument.postorder ++ [.negation]

/-- Running the postorder of a tree puts its value on the stack, or fails as the tree does. -/
theorem execute_postorder (tree : Expression) (later : List Postfix.Item) (stack : List Float) :
    Postfix.execute (tree.postorder ++ later) stack =
      tree.evaluate.bind fun value => Postfix.execute later (value :: stack) := by
  induction tree generalizing later stack with
  | number value => rfl
  | binary op left right leftRuns rightRuns =>
    rw [postorder, List.append_assoc, List.append_assoc, leftRuns, evaluate]
    cases left.evaluate with
    | error failure => rfl
    | ok leftValue =>
      change Postfix.execute (right.postorder ++ _) _ = _
      rw [rightRuns]
      cases right.evaluate with
      | error failure => rfl
      | ok rightValue => exact Postfix.execute_operator op later leftValue rightValue stack
  | call f argument argumentRuns =>
    rw [postorder, List.append_assoc, argumentRuns, evaluate]
    cases argument.evaluate with
    | error failure => rfl
    | ok value => exact Postfix.execute_function f later value stack
  | negate argument argumentRuns =>
    rw [postorder, List.append_assoc, argumentRuns, evaluate]
    cases argument.evaluate <;> rfl

theorem evaluate_postorder (tree : Expression) :
    Postfix.evaluate tree.postorder = tree.evaluate := by
  have runs := execute_postorder tree [] []
  rw [List.append_nil] at runs
  simp only [Postfix.evaluate, runs]
  cases tree.evaluate <;> rfl

theorem kind_of_evaluate {tree : Expression} {failure : Failure}
    (failed : tree.evaluate = .error failure) :
    failure.kind = .divisionByZero ∨ failure.kind = .domainError := by
  induction tree with
  | number value => cases failed
  | binary op left right leftKind rightKind =>
    rw [evaluate] at failed
    cases leftValued : left.evaluate with
    | error leftFailure =>
      rw [leftValued] at failed
      cases failed
      exact leftKind leftValued
    | ok leftValue =>
      cases rightValued : right.evaluate with
      | error rightFailure =>
        rw [leftValued, rightValued] at failed
        cases failed
        exact rightKind rightValued
      | ok rightValue =>
        rw [leftValued, rightValued] at failed
        rw [Operation.failure_of_apply failed]
        exact .inl rfl
  | call f argument argumentKind =>
    rw [evaluate] at failed
    cases valued : argument.evaluate with
    | error argumentFailure =>
      rw [valued] at failed
      cases failed
      exact argumentKind valued
    | ok value =>
      rw [valued] at failed
      rw [UnaryFunction.failure_of_apply failed]
      exact .inr rfl
  | negate argument argumentKind =>
    rw [evaluate] at failed
    cases valued : argument.evaluate with
    | error argumentFailure =>
      rw [valued] at failed
      cases failed
      exact argumentKind valued
    | ok value =>
      rw [valued] at failed
      cases failed

/-- The item of the root. -/
def root : Expression → Postfix.Item
  | number value => .number value
  | binary op _ _ => .operator op
  | call f _ => .function f
  | negate _ => .negation

/-- The postorder of what is below the root. -/
def operands : Expression → List Postfix.Item
  | number _ => []
  | binary _ left right => left.postorder ++ right.postorder
  | call _ argument => argument.postorder
  | negate argument => argument.postorder

theorem postorder_eq_operands_append_root (tree : Expression) :
    tree.postorder = tree.operands ++ [tree.root] := by
  cases tree <;> rfl

/-- The postorders at the end of a list agree in their roots and in what is before them. -/
theorem append_postorder_eq {tree other : Expression} {before earlier : List Postfix.Item}
    (same : before ++ tree.postorder = earlier ++ other.postorder) :
    before ++ tree.operands = earlier ++ other.operands ∧ tree.root = other.root := by
  rw [postorder_eq_operands_append_root tree, postorder_eq_operands_append_root other,
    ← List.append_assoc, ← List.append_assoc] at same
  obtain ⟨below, roots⟩ := List.append_inj' same rfl
  exact ⟨below, (List.cons.inj roots).1⟩

/-- The last part of a list that is the postorder of a tree is so for one tree only. -/
theorem append_postorder_inj {tree other : Expression} {before earlier : List Postfix.Item}
    (same : before ++ tree.postorder = earlier ++ other.postorder) :
    before = earlier ∧ tree = other := by
  obtain ⟨below, roots⟩ := append_postorder_eq same
  induction tree generalizing other before earlier with
  | number value =>
    cases other with
    | number value' =>
      cases roots
      exact ⟨List.append_cancel_right below, rfl⟩
    | _ => cases roots
  | binary op left right leftInj rightInj =>
    cases other with
    | binary op' left' right' =>
      cases roots
      rw [operands, operands, ← List.append_assoc, ← List.append_assoc] at below
      obtain ⟨rightBelow, rightRoots⟩ := append_postorder_eq below
      obtain ⟨leftSame, rfl⟩ := rightInj below rightBelow rightRoots
      obtain ⟨leftBelow, leftRoots⟩ := append_postorder_eq leftSame
      obtain ⟨beforeSame, rfl⟩ := leftInj leftSame leftBelow leftRoots
      exact ⟨beforeSame, rfl⟩
    | _ => cases roots
  | call f argument argumentInj =>
    cases other with
    | call f' argument' =>
      cases roots
      obtain ⟨argumentBelow, argumentRoots⟩ := append_postorder_eq below
      obtain ⟨beforeSame, rfl⟩ := argumentInj below argumentBelow argumentRoots
      exact ⟨beforeSame, rfl⟩
    | _ => cases roots
  | negate argument argumentInj =>
    cases other with
    | negate argument' =>
      obtain ⟨argumentBelow, argumentRoots⟩ := append_postorder_eq below
      obtain ⟨beforeSame, rfl⟩ := argumentInj below argumentBelow argumentRoots
      exact ⟨beforeSame, rfl⟩
    | _ => cases roots

/-- No two trees have the same postorder. -/
theorem postorder_injective {tree other : Expression}
    (same : tree.postorder = other.postorder) : tree = other :=
  (append_postorder_inj (show [] ++ tree.postorder = [] ++ other.postorder from same)).2

end Expression

end Keypad
