import Keypad.Expression

/-!
# Chains of operators

A chain is a number with operators behind it, each with a number of its own. The operators may have
any precedence and any associativity, also different ones at the same precedence. A chain has one
grouping, and the grouping does not depend on what the operators are and do otherwise.
-/

namespace Keypad

/-- What decides how an operator is grouped with its neighbours. -/
structure Rank where
  precedence : Nat
  associativity : Associativity
deriving DecidableEq, Repr

def Operator.rank (op : Operator) : Rank :=
  ⟨op.precedence, op.associativity⟩

/-- Whether the operator between two parts of a chain is its root. Among the operators that bind
    least tightly it is the last one that groups from the left, or the first one if all of them
    group from the right. -/
structure Rank.IsRoot (before : List Rank) (root : Rank) (after : List Rank) : Prop where
  loosest : ∀ other ∈ before ++ after, root.precedence ≤ other.precedence
  chosen :
    (root.associativity = .left ∧
      ∀ other ∈ after, other.precedence = root.precedence → other.associativity = .right) ∨
    ((∀ other ∈ before ++ root :: after,
        other.precedence = root.precedence → other.associativity = .right) ∧
      ∀ other ∈ before, other.precedence ≠ root.precedence)

/-- A number, and operators with a number behind each. -/
structure Chain where
  first : Float
  rest : List (Operator × Float)
deriving DecidableEq, Repr

namespace Chain

/-- Two chains with an operator between them. -/
def join (left : Chain) (op : Operator) (right : Chain) : Chain :=
  ⟨left.first, left.rest ++ (op, right.first) :: right.rest⟩

def operators (chain : Chain) : List Operator :=
  chain.rest.map Prod.fst

def ranks (chain : Chain) : List Rank :=
  chain.operators.map Operator.rank

/-- How a chain is written. -/
def lexemes (chain : Chain) : List Lexeme :=
  .number chain.first :: chain.rest.flatMap fun (op, value) => [.operator op, .number value]

/-- The tree of a chain. Its root divides the chain, and the parts have trees of their own. -/
inductive Groups : Chain → Expression → Prop where
  | number (value : Float) : Groups ⟨value, []⟩ (.number value)
  | root {left right : Chain} {op : Operator} {first second : Expression}
      (isRoot : Rank.IsRoot left.ranks op.rank right.ranks) (leftGroups : Groups left first)
      (rightGroups : Groups right second) :
      Groups (left.join op right) (.binary op first second)

@[simp] theorem operators_join (left : Chain) (op : Operator) (right : Chain) :
    (left.join op right).operators = left.operators ++ op :: right.operators := by
  simp [operators, join]

@[simp] theorem ranks_join (left : Chain) (op : Operator) (right : Chain) :
    (left.join op right).ranks = left.ranks ++ op.rank :: right.ranks := by
  simp [ranks]

@[simp] theorem lexemes_join (left : Chain) (op : Operator) (right : Chain) :
    (left.join op right).lexemes = left.lexemes ++ .operator op :: right.lexemes := by
  simp [lexemes, join]

end Chain

/-- Trees that differ in nothing but their numbers and what their operators are. -/
inductive Expression.SameShape : Expression → Expression → Prop where
  | number (value other : Float) : SameShape (.number value) (.number other)
  | binary (op other : Operator) {left right otherLeft otherRight : Expression}
      (leftSame : SameShape left otherLeft) (rightSame : SameShape right otherRight) :
      SameShape (.binary op left right) (.binary other otherLeft otherRight)

end Keypad
