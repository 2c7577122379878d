import Keypad.Token

/-!
# Postfix order

An expression in postfix order is a list of items, in which every operation follows its operands.
Tokens are put into this order with a stack of pending entries, which wait for their operands to be
complete. Whether operations have the right number of operands is not looked at here.
-/

namespace Keypad.Postfix

/-- A negation is the sign in front of an operand, unlike a subtraction, which has two operands. -/
inductive Item where
  | number (value : Float)
  | operator (operator : Operator)
  | function (function : UnaryFunction)
  | negation
deriving DecidableEq, Repr

def Item.text : Item → String
  | number value => Number.Style.listing.write value
  | operator op => op.symbol.toString
  | function f => f.name
  | negation => "neg"

/-- Items are listed with a space between them. -/
def listing (items : List Item) : String :=
  " ".intercalate (items.map Item.text)

/-- What waits on the stack: an item, or the open group at a position. -/
inductive Pending where
  | item (item : Item)
  | group (position : Nat)
deriving DecidableEq, Repr

/-- The precedence of the sign in front of an operand. It binds as tightly as multiplication and
    less tightly than powers. -/
def negationPrecedence : Nat := 3

namespace Pending

def item? : Pending → Option Item
  | item entry => some entry
  | group _ => none

def position? : Pending → Option Nat
  | item _ => none
  | group position => some position

/-- Whether a pending entry takes the operand in front of an operator. Functions wait for the end of
    their group. -/
def claimsBefore (op : Operator) : Pending → Bool
  | item (.operator waiting) => waiting.claimsFrom op
  | item .negation => op.precedence ≤ negationPrecedence
  | _ => false

def isItem (pending : Pending) : Bool :=
  pending.item?.isSome

end Pending

/-- The stack, innermost entry first, and whether an operand comes next. -/
structure State where
  pending : List Pending
  expectsOperand : Bool
deriving DecidableEq, Repr

namespace State

/-- An expression begins with an operand. -/
def initial : State := ⟨[], true⟩

/-- Puts an item on the stack, after which an operand comes next. -/
def await (state : State) (item : Item) : State :=
  ⟨.item item :: state.pending, true⟩

/-- The items that leave the stack at an operator, and the state without them. -/
def release (state : State) (op : Operator) : List Item × State :=
  ((state.pending.takeWhile (Pending.claimsBefore op)).filterMap Pending.item?,
    { state with pending := state.pending.dropWhile (Pending.claimsBefore op) })

/-- The items that leave the stack when a group ends at a position, and the state behind the group.
    A function in front of the group takes it as its argument. -/
def closeGroup (state : State) (position : Nat) : Except Failure (List Item × State) :=
  let inner := (state.pending.takeWhile Pending.isItem).filterMap Pending.item?
  match state.pending.dropWhile Pending.isItem with
  | [] => .error (.unmatchedRightParen position)
  | _ :: .item (.function f) :: outer => .ok (inner ++ [.function f], ⟨outer, false⟩)
  | _ :: outer => .ok (inner, ⟨outer, false⟩)

/-- The items that a token puts out, and the state behind it. -/
def step (state : State) (token : Token) : Except Failure (List Item × State) :=
  match token.lexeme with
  | .number value => .ok ([.number value], { state with expectsOperand := false })
  | .word name =>
    match UnaryFunction.ofName? name with
    | some f => .ok ([], state.await (.function f))
    | none => .error (.unknownFunction name)
  | .operator op =>
    if state.expectsOperand && op.operation == .subtract then .ok ([], state.await .negation)
    else
      let (released, rest) := state.release op
      .ok (released, rest.await (.operator op))
  | .leftParen => .ok ([], ⟨.group token.span.start :: state.pending, true⟩)
  | .rightParen => state.closeGroup token.span.start

/-- The items that are left at the end, unless a group is still open. -/
def finish (state : State) : Except Failure (List Item) :=
  match state.pending.findSome? Pending.position? with
  | some position => .error (.unclosedLeftParen position)
  | none => .ok (state.pending.filterMap Pending.item?)

/-- The items that tokens put out from a state on. -/
def items : State → List Token → Except Failure (List Item)
  | state, [] => state.finish
  | state, token :: later => do
    let (emitted, next) ← state.step token
    let rest ← next.items later
    return emitted ++ rest

end State

/-- The postfix order of an expression. -/
def ofTokens (tokens : List Token) : Except Failure (List Item) :=
  State.initial.items tokens

end Keypad.Postfix
