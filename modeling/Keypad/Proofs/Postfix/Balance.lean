import Keypad.Proofs.Expression.Neighbours
import Keypad.Proofs.Postfix.Run
import Keypad.Proofs.Postfix.Stack

/-!
# Balance

How many numbers the items still to come can add to the stack is bounded by the balance of a state,
the gain of its pending items and of the operand it expects. A token keeps the balance if it stands
where the grammar has it, and lowers it if an operand is missing there (`balance_of_step`). Only an
operand beside another one raises it.
-/

namespace Keypad.Postfix

open Expression (Place Takes Completes SideBySide)

namespace Pending

/-- The items among pending entries. -/
def items (pending : List Pending) : List Item :=
  pending.filterMap item?

/-- How many groups are open. -/
def openGroups (pending : List Pending) : Nat :=
  pending.countP fun entry => !entry.isItem

@[simp] theorem items_item (entry : Item) (below : List Pending) :
    items (item entry :: below) = entry :: items below := rfl

@[simp] theorem items_group (start : Nat) (below : List Pending) :
    items (group start :: below) = items below := rfl

@[simp] theorem openGroups_item (entry : Item) (below : List Pending) :
    openGroups (item entry :: below) = openGroups below :=
  List.countP_cons_of_neg (by simp [isItem, item?])

@[simp] theorem openGroups_group (start : Nat) (below : List Pending) :
    openGroups (group start :: below) = openGroups below + 1 :=
  List.countP_cons_of_pos rfl

@[simp] theorem items_block_append (inner : List Item) (outer : List Pending) :
    items (block inner ++ outer) = inner ++ items outer := by
  induction inner with
  | nil => rfl
  | cons entry inner inductionHypothesis => exact congrArg (entry :: ·) inductionHypothesis

@[simp] theorem openGroups_block_append (inner : List Item) (outer : List Pending) :
    openGroups (block inner ++ outer) = openGroups outer := by
  induction inner with
  | nil => rfl
  | cons entry inner inductionHypothesis =>
    rw [block, List.map_cons, List.cons_append, openGroups_item]
    exact inductionHypothesis

theorem items_applied (outer : List Pending) :
    items outer = (applied outer).1 ++ items (applied outer).2 := by
  match outer with
  | [] => rfl
  | .group _ :: _ => rfl
  | .item entry :: _ => cases entry <;> rfl

theorem openGroups_applied (outer : List Pending) :
    openGroups (applied outer).2 = openGroups outer := by
  match outer with
  | [] => rfl
  | .group _ :: _ => rfl
  | .item entry :: below =>
    cases entry with
    | function f => exact (openGroups_item (.function f) below).symm
    | _ => rfl

end Pending

namespace State

/-- The place of the grammar that a state stands for. -/
def place (state : State) : Place :=
  ⟨Pending.openGroups state.pending, state.expectsOperand⟩

/-- What the items to come can add to the stack, with one operand wherever one is expected. -/
def balance (state : State) : Int :=
  gain (Pending.items state.pending) + if state.expectsOperand then 1 else 0

theorem balance_expecting (pending : List Pending) :
    balance ⟨pending, true⟩ = gain (Pending.items pending) + 1 := rfl

theorem balance_ended (pending : List Pending) :
    balance ⟨pending, false⟩ = gain (Pending.items pending) :=
  Int.add_zero _

theorem expectsOperand_of_step {state next : State} {token : Token} {emitted : List Item}
    (stepped : state.step token = .ok (emitted, next)) :
    next.expectsOperand = !token.lexeme.endsOperand := by
  cases moves_of_step stepped <;> rfl

/-- A token that begins no operand behind another one either keeps the balance and stands at a place
    for it, or lowers the balance. -/
theorem balance_of_step {state next : State} {token : Token} {emitted : List Item}
    (stepped : state.step token = .ok (emitted, next))
    (apart : state.expectsOperand = false → token.lexeme.startsOperand = false)
    (common : ∀ op, token.lexeme = .operator op → op ∈ OperatorTable.common.entries) :
    gain emitted + next.balance < state.balance ∨
      gain emitted + next.balance = state.balance ∧
        Takes state.place token.lexeme next.place := by
  cases moves_of_step stepped with
  | number pending expects value span =>
    cases expects with
    | false => cases apart rfl
    | true =>
      refine .inr ⟨?_, .number value⟩
      simp only [balance_expecting, balance_ended, gain_cons, gain_nil, Item.gain]
      omega
  | word pending expects f span =>
    cases expects with
    | false => cases apart rfl
    | true =>
      refine .inr ⟨?_, ?_⟩
      · simp only [balance_expecting, Pending.items_item, gain_cons, gain_nil, Item.gain]
        omega
      · simp only [place, Pending.openGroups_item]
        exact .word f
  | @sign pending op subtracts span =>
    have isSubtract : op = .subtract := by
      obtain rfl | rfl | rfl | rfl | rfl := OperatorTable.mem_common_iff.mp (common op rfl) <;>
        first | rfl | cases subtracts
    subst isSubtract
    refine .inr ⟨?_, ?_⟩
    · simp only [balance_expecting, Pending.items_item, gain_nil, gain_cons, Item.gain]
      omega
    · simp only [place, Pending.openGroups_item]
      exact .sign
  | @infixed released rest expects op unsigned release span =>
    cases expects with
    | true =>
      refine .inl ?_
      simp only [balance_expecting, Pending.items_item, Pending.items_block_append, gain_cons,
        gain_append, Item.gain]
      omega
    | false =>
      refine .inr ⟨?_, ?_⟩
      · simp only [balance_expecting, balance_ended, Pending.items_item,
          Pending.items_block_append, gain_cons, gain_append, Item.gain]
        omega
      · simp only [place, Pending.openGroups_item, Pending.openGroups_block_append]
        exact .infixed (common op rfl)
  | opening pending expects span =>
    cases expects with
    | false => cases apart rfl
    | true =>
      refine .inr ⟨?_, ?_⟩
      · simp only [balance_expecting, Pending.items_group, gain_nil]
        omega
      · simp only [place, Pending.openGroups_group]
        exact .opening
  | closing inner start outer expects span =>
    have kept := congrArg gain (Pending.items_applied outer)
    rw [gain_append] at kept
    cases expects with
    | true =>
      refine .inl ?_
      simp only [balance_expecting, balance_ended, Pending.items_block_append, Pending.items_group,
        gain_append]
      omega
    | false =>
      refine .inr ⟨?_, ?_⟩
      · simp only [balance_ended, Pending.items_block_append, Pending.items_group, gain_append]
        omega
      · simp only [place, Pending.openGroups_block_append, Pending.openGroups_group,
          Pending.openGroups_applied]
        exact .closing

/-- Without operands side by side, a run that keeps the balance reads what the grammar has there. -/
theorem balance_of_run {state last : State} {tokens : List Token} {emitted : List Item}
    (ran : state.run tokens = .ok (emitted, last))
    (apart : state.expectsOperand = false →
      ∀ first ∈ tokens.head?, first.lexeme.startsOperand = false)
    (separate : ¬ SideBySide (tokens.map Token.lexeme))
    (common : ∀ op, .operator op ∈ tokens.map Token.lexeme → op ∈ OperatorTable.common.entries) :
    gain emitted + last.balance < state.balance ∨
      gain emitted + last.balance = state.balance ∧
        ∀ later, Completes last.place later →
          Completes state.place (tokens.map Token.lexeme ++ later) := by
  induction tokens generalizing state emitted with
  | nil =>
    cases ran
    exact .inr ⟨Int.zero_add _, fun later completes => completes⟩
  | cons token tokens inductionHypothesis =>
    obtain ⟨emitted, next, rest, stepped, continued, rfl⟩ := run_cons_inv ran
    have nextApart : next.expectsOperand = false →
        ∀ first ∈ tokens.head?, first.lexeme.startsOperand = false := by
      intro ended first isFirst
      obtain ⟨later, rfl⟩ := List.head?_eq_some_iff.mp isFirst
      rw [expectsOperand_of_step stepped, Bool.not_eq_false'] at ended
      rw [← Bool.not_eq_true]
      exact fun starts => separate ⟨[], _, _, _, rfl, ended, starts⟩
    have stepBalance := balance_of_step stepped (fun ended => apart ended token rfl)
      fun op isOperator => common op (isOperator ▸ List.mem_cons_self)
    have runBalance := inductionHypothesis continued nextApart
      (fun adjacent => separate (adjacent.cons _))
      fun op member => common op (List.mem_cons_of_mem _ member)
    rw [gain_append]
    -- Once lowered, the balance stays below, as no later token raises it.
    obtain lower | ⟨kept, takes⟩ := stepBalance
    · refine .inl ?_
      obtain lowerRun | ⟨keptRun, -⟩ := runBalance <;> omega
    · obtain lowerRun | ⟨keptRun, completes⟩ := runBalance
      · exact .inl (by omega)
      · refine .inr ⟨by omega, fun later rest => ?_⟩
        exact .take takes (completes later rest)

end State

end Keypad.Postfix
