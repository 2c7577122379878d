import Keypad.Expression

/-!
# The infix grammar

Which sequences of lexemes are expressions, and the tree of each. A phrase has a level, which says
how tightly its outermost operator binds.

A function may take its argument without parentheses. Such a bare argument reaches up to the end of
the group or of the input, so a phrase that ends in one is never a left operand.
-/

namespace Keypad.Expression

/-- Levels of phrases, from the loosest to the tightest. -/
inductive Level where
  | sum
  | product
  | sign
  | power
  | atom
deriving DecidableEq, Repr

/-- Derivations of a phrase at a level, with its tree. The flag tells whether the phrase ends in a
    bare argument. -/
inductive Derives : Level → Bool → List Lexeme → Expression → Prop where
  | number (value : Float) : Derives .atom false [.number value] (.number value)
  | group {bare : Bool} {phrase : List Lexeme} {tree : Expression}
      (inner : Derives .sum bare phrase tree) :
      Derives .atom false (.leftParen :: phrase ++ [.rightParen]) tree
  | call (function : UnaryFunction) {bare : Bool} {phrase : List Lexeme} {tree : Expression}
      (argument : Derives .sum bare phrase tree) :
      Derives .atom false (.word function.name :: .leftParen :: phrase ++ [.rightParen])
        (.call function tree)
  | bareCall (function : UnaryFunction) {bare : Bool} {phrase : List Lexeme} {tree : Expression}
      (argument : Derives .sum bare phrase tree) (ungrouped : phrase.head? ≠ some .leftParen) :
      Derives .atom true (.word function.name :: phrase) (.call function tree)
  | ofAtom {bare : Bool} {phrase : List Lexeme} {tree : Expression}
      (atom : Derives .atom bare phrase tree) : Derives .power bare phrase tree
  | raise {bare : Bool} {left right : List Lexeme} {base exponent : Expression}
      (leftDerived : Derives .atom false left base)
      (rightDerived : Derives .sign bare right exponent) :
      Derives .power bare (left ++ .operator .power :: right) (.binary .power base exponent)
  | ofPower {bare : Bool} {phrase : List Lexeme} {tree : Expression}
      (power : Derives .power bare phrase tree) : Derives .sign bare phrase tree
  | negate {bare : Bool} {phrase : List Lexeme} {tree : Expression}
      (operand : Derives .sign bare phrase tree) :
      Derives .sign bare (.operator .subtract :: phrase) (.negate tree)
  | ofSign {bare : Bool} {phrase : List Lexeme} {tree : Expression}
      (sign : Derives .sign bare phrase tree) : Derives .product bare phrase tree
  | multiply {op : Operator} (multiplicative : op = .multiply ∨ op = .divide) {bare : Bool}
      {left right : List Lexeme} {first second : Expression}
      (leftDerived : Derives .product false left first)
      (rightDerived : Derives .sign bare right second) :
      Derives .product bare (left ++ .operator op :: right) (.binary op first second)
  | ofProduct {bare : Bool} {phrase : List Lexeme} {tree : Expression}
      (product : Derives .product bare phrase tree) : Derives .sum bare phrase tree
  | add {op : Operator} (additive : op = .add ∨ op = .subtract) {bare : Bool}
      {left right : List Lexeme} {first second : Expression}
      (leftDerived : Derives .sum false left first)
      (rightDerived : Derives .product bare right second) :
      Derives .sum bare (left ++ .operator op :: right) (.binary op first second)

/-- Every phrase has a lexeme. -/
theorem Derives.phrase_ne_nil {level : Level} {bare : Bool} {phrase : List Lexeme}
    {tree : Expression} (derived : Derives level bare phrase tree) : phrase ≠ [] := by
  induction derived <;> simp_all

end Keypad.Expression
