import Keypad.Failure
import Keypad.Operator

/-!
# Tokens

The words and signs of an expression, each with the stretch of text it was read from.
-/

namespace Keypad

/-- A half-open stretch of byte offsets. -/
structure Span where
  start : Nat
  stop : Nat
deriving DecidableEq, Repr

/-- What a token says. Whether a word names a function is decided when tokens are put into postfix
    order. -/
inductive Lexeme where
  | number (value : Float)
  | operator (operator : Operator)
  | leftParen
  | rightParen
  | word (name : String)
deriving DecidableEq, Repr

/-- A lexeme and where it stands. -/
structure Token where
  lexeme : Lexeme
  span : Span
deriving DecidableEq, Repr

/-- The text of a lexeme, with numbers in their shortest form. -/
def Lexeme.text : Lexeme → String
  | number value => Number.Style.listing.write value
  | operator op => op.symbol.toString
  | leftParen => "("
  | rightParen => ")"
  | word name => name

/-- Tokens are listed with a space between them. -/
def Token.listing (tokens : List Token) : String :=
  " ".intercalate (tokens.map fun token => token.lexeme.text)

end Keypad
