import Keypad.Canonical
import Keypad.Expression.Grammar

/-!
# Formulas

A formula is an expression as it is typed: it knows π, and the spelling of every operator. It is
written with parentheses only where the level of an operand requires them.
-/

namespace Keypad

/-- Whether an operator is typed as an ASCII character or as its key shows it. -/
inductive Spelling where
  | ascii
  | keypad
deriving DecidableEq, Repr

/-- Expressions with π and with a spelling for every sign. -/
inductive Formula where
  | number (value : Float)
  | pi
  | negate (spelling : Spelling) (operand : Formula)
  | binary (operation : Operation) (spelling : Spelling) (left right : Formula)
  | call (function : UnaryFunction) (argument : Formula)
deriving Repr

namespace Operation

/-- The operator of the keypad for an operation. -/
def operator : Operation → Operator
  | .add => .add
  | .subtract => .subtract
  | .multiply => .multiply
  | .divide => .divide
  | .power => .power

/-- How an operation is typed. -/
def symbol : Operation → Spelling → Char
  | .subtract, .keypad => '−'
  | .multiply, .keypad => '×'
  | .divide, .keypad => '÷'
  | operation, _ => operation.operator.symbol

/-- The level of phrases with the operation as their outermost one. -/
def level : Operation → Expression.Level
  | .add => .sum
  | .subtract => .sum
  | .multiply => .product
  | .divide => .product
  | .power => .power

/-- The level that a left operand needs in order to stand without parentheses. -/
def leftLevel : Operation → Expression.Level
  | .add => .sum
  | .subtract => .sum
  | .multiply => .product
  | .divide => .product
  | .power => .atom

/-- The level that a right operand needs in order to stand without parentheses. -/
def rightLevel : Operation → Expression.Level
  | .add => .product
  | .subtract => .product
  | .multiply => .sign
  | .divide => .sign
  | .power => .sign

end Operation

/-- Greater ranks bind more tightly. -/
def Expression.Level.rank : Expression.Level → Nat
  | sum => 0
  | product => 1
  | sign => 2
  | power => 3
  | atom => 4

namespace Formula

open Expression (Level)

def level : Formula → Level
  | number _ => .atom
  | pi => .atom
  | negate _ _ => .sign
  | binary operation _ _ _ => operation.level
  | call _ _ => .atom

/-- Puts parentheses around a phrase that binds less tightly than its place requires. -/
def bracket (required own : Level) (phrase : List Char) : List Char :=
  if required.rank ≤ own.rank then phrase else '(' :: phrase ++ [')']

/-- The text of a formula. -/
def write : Formula → List Char
  | number value => (Number.Style.listing.write value).toList
  | pi => ['π']
  | negate spelling operand =>
    Operation.subtract.symbol spelling :: bracket .sign operand.level operand.write
  | binary operation spelling left right =>
    bracket operation.leftLevel left.level left.write ++
      operation.symbol spelling :: bracket operation.rightLevel right.level right.write
  | call f argument => f.name.toList ++ '(' :: argument.write ++ [')']

/-- The number that π stands for. -/
def piValue : Float :=
  (Number.ofNumeral? Canonical.piNumeral).getD 0

/-- The tree of a formula. -/
def toExpression : Formula → Expression
  | number value => .number value
  | pi => .number piValue
  | negate _ operand => .negate operand.toExpression
  | binary operation _ left right =>
    .binary operation.operator left.toExpression right.toExpression
  | call f argument => .call f argument.toExpression

end Formula

end Keypad
