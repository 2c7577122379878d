import Keypad.Expression
import Keypad.Proofs.Postfix.Stack

/-!
# Items as trees

Items that run build trees: what they leave on the stack are the values of trees, whose postorders one
after the other are the items (`Forest.run`, `exists_tree_of_execute`). So only the postorder of a tree has a value, and
it is the value of the tree. All other items fail, and how they fail is decided by the first item
that cannot run, if there is one (`evaluate_decodes`).
-/

namespace Keypad.Postfix

open Expression (postorder)

/-- Items that are postorders one after the other, with the values of the trees on the stack. -/
inductive Forest : List Item → List Float → Prop where
  | nil : Forest [] []
  | cons (tree : Expression) {items : List Item} {stack : List Float} {value : Float}
      (below : Forest items stack) (valued : tree.evaluate = .ok value) :
      Forest (items ++ tree.postorder) (value :: stack)

/-- An item makes one tree of its operands. -/
theorem Forest.step {items : List Item} {stack next : List Float} (forest : Forest items stack)
    {item : Item} (ran : item.execute stack = .ok next) : Forest (items ++ [item]) next := by
  cases item with
  | number value =>
    cases ran
    exact .cons (.number value) forest rfl
  | negation =>
    cases forest with
    | nil => cases ran
    | @cons argument items below value forest valued =>
      cases ran
      rw [List.append_assoc]
      refine .cons (.negate argument) forest ?_
      rw [Expression.evaluate, valued]
      rfl
  | function f =>
    cases forest with
    | nil => cases ran
    | @cons argument items below value forest valued =>
      obtain ⟨result, applied, rfl⟩ := map_eq_ok_iff.mp ran
      rw [List.append_assoc]
      refine .cons (.call f argument) forest ?_
      rw [Expression.evaluate, valued]
      exact applied
  | operator op =>
    cases forest with
    | nil => cases ran
    | @cons right items stack rightValue forest rightValued =>
      cases forest with
      | nil => cases ran
      | @cons left items below leftValue forest leftValued =>
        obtain ⟨result, applied, rfl⟩ := map_eq_ok_iff.mp ran
        rw [List.append_assoc, List.append_assoc, ← List.append_assoc left.postorder]
        refine .cons (.binary op left right) forest ?_
        rw [Expression.evaluate, leftValued, rightValued]
        exact applied

theorem Forest.run {earlier items : List Item} {stack result : List Float}
    (forest : Forest earlier stack) (ran : execute items stack = .ok result) :
    Forest (earlier ++ items) result := by
  induction items generalizing earlier stack with
  | nil =>
    cases ran
    rwa [List.append_nil]
  | cons item items inductionHypothesis =>
    rw [execute] at ran
    obtain ⟨next, stepped, continued⟩ := ok_of_bind ran
    have whole := inductionHypothesis (forest.step stepped) continued
    rwa [List.append_assoc, List.singleton_append] at whole

theorem exists_tree_of_execute {items : List Item} {value : Float}
    (ran : execute items [] = .ok [value]) :
    ∃ tree : Expression, tree.postorder = items ∧ tree.evaluate = .ok value := by
  have forest := Forest.nil.run ran
  rw [List.nil_append] at forest
  cases forest with
  | cons tree rest valued =>
    cases rest
    exact ⟨tree, rfl, valued⟩

/-! ## The item that cannot run -/

/-- All items in front of one run, and that one finds too few operands. -/
def LacksOperands (items : List Item) : Prop :=
  ∃ before item after stack, items = before ++ item :: after ∧
    execute before [] = .ok stack ∧ stack.length < item.arity

/-- All items in front of one run, and the arithmetic of that one fails. -/
def BreaksDown (items : List Item) (failure : Failure) : Prop :=
  ∃ before item after stack, items = before ++ item :: after ∧
    execute before [] = .ok stack ∧ item.Undefined stack failure

theorem execute_eq_error_iff {items : List Item} {failure : Failure} :
    execute items [] = .error failure ↔
      (LacksOperands items ∧ failure = .malformedExpression) ∨ BreaksDown items failure := by
  rw [execute_eq_foldlM, foldlM_eq_error_iff]
  constructor
  · rintro ⟨before, item, after, stack, same, ran, fails⟩
    rw [← execute_eq_foldlM] at ran
    obtain ⟨short, malformed⟩ | undefined := itemExecute_eq_error_iff.mp fails
    · exact .inl ⟨⟨before, item, after, stack, same, ran, short⟩, malformed⟩
    · exact .inr ⟨before, item, after, stack, same, ran, undefined⟩
  · rintro (⟨⟨before, item, after, stack, same, ran, short⟩, malformed⟩ |
      ⟨before, item, after, stack, same, ran, undefined⟩)
    · rw [execute_eq_foldlM] at ran
      exact ⟨before, item, after, stack, same, ran,
        itemExecute_eq_error_iff.mpr (.inl ⟨short, malformed⟩)⟩
    · rw [execute_eq_foldlM] at ran
      exact ⟨before, item, after, stack, same, ran, itemExecute_eq_error_iff.mpr (.inr undefined)⟩

theorem evaluate_of_execute_error {items : List Item} {failure : Failure}
    (failed : execute items [] = .error failure) : evaluate items = .error failure := by
  rw [evaluate, failed]
  rfl

theorem evaluate_of_several {items : List Item} {stack : List Float}
    (ran : execute items [] = .ok stack) (several : stack.length ≠ 1) :
    evaluate items = .error .malformedExpression := by
  rw [evaluate, ran]
  cases stack with
  | nil => rfl
  | cons value below =>
    cases below with
    | nil => exact absurd rfl several
    | cons other below => rfl

/-- A tree fails where its postorder does, in the first node that has no result. -/
theorem evaluate_eq_error_iff {tree : Expression} {failure : Failure} :
    tree.evaluate = .error failure ↔ BreaksDown tree.postorder failure := by
  constructor
  · intro failed
    have ran := Expression.execute_postorder tree [] []
    rw [List.append_nil, failed] at ran
    obtain ⟨-, rfl⟩ | broken := execute_eq_error_iff.mp ran
    · obtain same | same := Expression.kind_of_evaluate failed <;> cases same
    · exact broken
  · intro broken
    rw [← Expression.evaluate_postorder]
    exact evaluate_of_execute_error (execute_eq_error_iff.mpr (.inr broken))

/-- Items that are the postorder of a tree are so of one tree only, and have its value or fail in the
    first node of it that does. Items that are no postorder have no value. They fail where the first
    of them that cannot run does, which is malformed if it lacks operands, and are malformed too if
    all of them run. -/
theorem evaluate_decodes (items : List Item) :
    (∀ tree other : Expression, tree.postorder = items → other.postorder = items → tree = other) ∧
    (∀ tree : Expression, tree.postorder = items → evaluate items = tree.evaluate ∧
      ∀ failure, tree.evaluate = .error failure ↔ BreaksDown items failure) ∧
    ((∀ tree : Expression, tree.postorder ≠ items) →
      (∀ value, evaluate items ≠ .ok value) ∧
      (∀ failure, BreaksDown items failure → evaluate items = .error failure ∧
        (failure = .divisionByZero ∨ ∃ f argument, failure = .domainError f argument)) ∧
      ((∀ failure, ¬ BreaksDown items failure) →
        evaluate items = .error .malformedExpression ∧
          (LacksOperands items ∨ ∃ stack, execute items [] = .ok stack ∧ stack.length ≠ 1))) := by
  refine ⟨?_, ?_, fun treeless => ⟨?_, ?_, ?_⟩⟩
  · rintro tree other rfl same
    exact Expression.postorder_injective same.symm
  · rintro tree rfl
    exact ⟨tree.evaluate_postorder, fun failure => evaluate_eq_error_iff⟩
  · intro value valued
    obtain ⟨tree, listed, -⟩ := exists_tree_of_execute (execute_of_evaluate valued)
    exact treeless tree listed
  · rintro failure broken
    obtain ⟨before, item, after, stack, -, -, undefined⟩ := id broken
    exact ⟨evaluate_of_execute_error (execute_eq_error_iff.mpr (.inr broken)), undefined.failure⟩
  · intro unbroken
    cases ran : execute items [] with
    | error failure =>
      obtain ⟨lacks, rfl⟩ | broken := execute_eq_error_iff.mp ran
      · exact ⟨evaluate_of_execute_error ran, .inl lacks⟩
      · exact absurd broken (unbroken failure)
    | ok stack =>
      have several : stack.length ≠ 1 := by
        intro single
        obtain ⟨value, rfl⟩ := List.length_eq_one_iff.mp single
        obtain ⟨tree, listed, -⟩ := exists_tree_of_execute ran
        exact treeless tree listed
      exact ⟨evaluate_of_several ran several, .inr ⟨stack, rfl, several⟩⟩

/-- The postorder of a tree adds one number to the stack. -/
theorem gain_postorder (tree : Expression) : gain tree.postorder = 1 := by
  induction tree with
  | number value => rfl
  | binary op left right leftGain rightGain =>
    rw [postorder, gain_append, gain_append, leftGain, rightGain]
    rfl
  | call f argument argumentGain =>
    rw [postorder, gain_append, argumentGain]
    rfl
  | negate argument argumentGain =>
    rw [postorder, gain_append, argumentGain]
    rfl

theorem postorder_ne_of_gain {items : List Item} (unbalanced : gain items ≠ 1)
    (tree : Expression) : tree.postorder ≠ items := by
  rintro rfl
  exact unbalanced (gain_postorder tree)

/-- The division by zero comes before it shows that a number is left over. -/
def leftOver : List Item :=
  [.number 1, .number 0, .operator .divide, .number 2]

/-- The first item has no operands, ahead of a division by zero. -/
def unsupplied : List Item :=
  [.operator .subtract, .number 1, .number 0, .operator .divide]

theorem evaluate_decodes_of_leftOver :
    (∀ tree : Expression, tree.postorder ≠ leftOver) ∧ BreaksDown leftOver .divisionByZero ∧
      evaluate leftOver = .error .divisionByZero ∧
      (∀ tree : Expression, tree.postorder ≠ unsupplied) ∧
      (∀ failure, ¬ BreaksDown unsupplied failure) ∧
      evaluate unsupplied = .error .malformedExpression ∧
      evaluate [.number 1, .number 4, .operator .subtract] =
        (Expression.binary .subtract (.number 1) (.number 4)).evaluate := by
  have leftOverTreeless : ∀ tree : Expression, tree.postorder ≠ leftOver :=
    postorder_ne_of_gain (by decide)
  have broken : BreaksDown leftOver .divisionByZero :=
    ⟨[.number 1, .number 0], .operator .divide, [.number 2], [0, 1], rfl, rfl, .operator rfl []⟩
  have unsuppliedTreeless : ∀ tree : Expression, tree.postorder ≠ unsupplied :=
    postorder_ne_of_gain (by decide)
  have unbroken : ∀ failure, ¬ BreaksDown unsupplied failure := by
    intro failure broken
    have failed := execute_eq_error_iff.mpr (.inr broken)
    have malformed : execute unsupplied [] = .error .malformedExpression := rfl
    obtain ⟨before, item, after, stack, -, -, undefined⟩ := broken
    rw [malformed] at failed
    cases failed
    obtain same | ⟨f, argument, same⟩ := undefined.failure <;> cases same
  exact ⟨leftOverTreeless, broken, ((evaluate_decodes leftOver).2.2 leftOverTreeless).2.1 _ broken |>.1,
    unsuppliedTreeless, unbroken,
    ((evaluate_decodes unsupplied).2.2 unsuppliedTreeless).2.2 unbroken |>.1,
    ((evaluate_decodes _).2.1 (.binary .subtract (.number 1) (.number 4)) rfl).1⟩

end Keypad.Postfix
