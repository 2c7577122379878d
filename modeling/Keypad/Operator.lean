/-!
# Infix operators

An operator is a symbol for an operation, together with the precedence and the associativity that
decide how chains of operators are grouped.
-/

namespace Keypad

/-- The operation that an operator performs on its two operands. -/
inductive Operation where
  | add
  | subtract
  | multiply
  | divide
  | power
deriving DecidableEq, Repr

/-- How a chain of operators of one precedence is grouped. -/
inductive Associativity where
  | left
  | right
deriving DecidableEq, Repr

/-- Operators of greater precedence bind more tightly. -/
structure Operator where
  symbol : Char
  operation : Operation
  associativity : Associativity
  precedence : Nat
deriving DecidableEq, Repr

/-- Whether an operand between two operators belongs to the left one. At equal precedence the right
    operator decides. -/
def Operator.claimsFrom (left right : Operator) : Bool :=
  right.precedence < left.precedence ||
    (left.precedence == right.precedence && right.associativity == .left)

namespace Operator

def power : Operator := ⟨'^', .power, .right, 4⟩

def multiply : Operator := ⟨'*', .multiply, .left, 3⟩

def divide : Operator := ⟨'/', .divide, .left, 3⟩

def add : Operator := ⟨'+', .add, .left, 2⟩

def subtract : Operator := ⟨'-', .subtract, .left, 2⟩

end Operator

/-- Operators by their symbols. -/
structure OperatorTable where
  entries : List Operator

namespace OperatorTable

def empty : OperatorTable := ⟨[]⟩

def get? (table : OperatorTable) (symbol : Char) : Option Operator :=
  table.entries.find? fun operator => operator.symbol == symbol

/-- Puts an operator in place of the one with its symbol. -/
def insert (table : OperatorTable) (operator : Operator) : OperatorTable :=
  ⟨operator :: table.entries.filter fun other => other.symbol != operator.symbol⟩

def ofList (operators : List Operator) : OperatorTable :=
  operators.foldl insert empty

/-- The five arithmetic operators of the keypad. -/
def common : OperatorTable :=
  ofList [.power, .multiply, .divide, .add, .subtract]

@[simp] theorem get?_empty (symbol : Char) : empty.get? symbol = none := rfl

@[simp] theorem get?_insert_self (table : OperatorTable) (operator : Operator) :
    (table.insert operator).get? operator.symbol = some operator := by
  simp [insert, get?]

theorem get?_insert_of_ne (table : OperatorTable) {operator : Operator} {symbol : Char}
    (different : operator.symbol ≠ symbol) :
    (table.insert operator).get? symbol = table.get? symbol := by
  have skipped : (operator.symbol == symbol) = false := by simp [different]
  have kept : (fun other : Operator => decide (other.symbol != operator.symbol ∧
      other.symbol == symbol)) = fun other => other.symbol == symbol := by
    funext other
    grind
  simp only [insert, get?, List.find?_cons, skipped, List.find?_filter, kept]

theorem symbol_of_get? {table : OperatorTable} {symbol : Char} {operator : Operator}
    (found : table.get? symbol = some operator) : operator.symbol = symbol := by
  simpa using List.find?_some found

end OperatorTable

end Keypad
