import Keypad.Text.Run
import Keypad.Token

/-!
# Scanning

Canonical text is cut into the longest numerals and the longest words, and every other character
stands alone. Whether operators and operands alternate is not looked at here. The first run that
cannot be read decides the failure.
-/

namespace Keypad

/-- Digits and points join into numerals, letters into words. -/
def Lexeme.joins (left right : Char) : Bool :=
  (Decimal.isNumeralChar left && Decimal.isNumeralChar right) || (left.isAlpha && right.isAlpha)

/-- The lexemes of one character. -/
def Lexeme.ofSymbol? (symbol : Char) : Option Lexeme :=
  if symbol = '(' then some .leftParen
  else if symbol = ')' then some .rightParen
  else (OperatorTable.common.get? symbol).map .operator

/-- Reads the run that starts at a position. -/
def Lexeme.ofRun (position : Nat) (run : Run Char) : Except Failure Lexeme :=
  if Decimal.isNumeralChar run.first then
    match Number.ofNumeral? run.toList with
    | some value => .ok (.number value)
    | none => .error (.invalidNumber (String.ofList run.toList))
  else if run.first.isAlpha then .ok (.word (String.ofList run.toList))
  else
    match Lexeme.ofSymbol? run.first with
    | some lexeme => .ok lexeme
    | none => .error (.invalidCharacter run.first position)

namespace Token

/-- How many bytes a text takes in UTF-8. -/
def byteLength : List Char → Nat
  | [] => 0
  | c :: text => c.utf8Size + byteLength text

@[simp] theorem byteLength_nil : byteLength [] = 0 := rfl

@[simp] theorem byteLength_cons (c : Char) (text : List Char) :
    byteLength (c :: text) = c.utf8Size + byteLength text := rfl

@[simp] theorem byteLength_append (text later : List Char) :
    byteLength (text ++ later) = byteLength text + byteLength later := by
  induction text with
  | nil => simp
  | cons c text inductionHypothesis => simp [inductionHypothesis, Nat.add_assoc]

theorem utf8ByteSize_ofList (text : List Char) :
    (String.ofList text).utf8ByteSize = byteLength text := by
  induction text with
  | nil => rfl
  | cons c text inductionHypothesis =>
    rw [String.ofList_cons, String.utf8ByteSize_append, String.utf8ByteSize_singleton,
      inductionHypothesis, byteLength_cons]

/-- Reads runs one after the other, the first of which starts at a position. -/
def ofRuns : Nat → List (Run Char) → Except Failure (List Token)
  | _, [] => .ok []
  | position, run :: later => do
    let lexeme ← Lexeme.ofRun position run
    let stop := position + byteLength run.toList
    let tokens ← ofRuns stop later
    return ⟨lexeme, ⟨position, stop⟩⟩ :: tokens

/-- The tokens of a canonical text. -/
def scan (text : String) : Except Failure (List Token) :=
  ofRuns 0 (Run.split Lexeme.joins text.toList)

end Token

end Keypad
