/-!
# Functions of one argument

The five functions of the keypad and their names.
-/

namespace Keypad

/-- The trigonometric functions take degrees; `log` has base ten and `ln` is natural. -/
inductive UnaryFunction where
  | sin
  | cos
  | tan
  | log
  | ln
deriving DecidableEq, Repr

namespace UnaryFunction

def all : List UnaryFunction := [sin, cos, tan, log, ln]

def name : UnaryFunction → String
  | sin => "sin"
  | cos => "cos"
  | tan => "tan"
  | log => "log"
  | ln => "ln"

/-- Names are told apart by case. -/
def ofName? (word : String) : Option UnaryFunction :=
  all.find? fun function => function.name == word

theorem mem_all (function : UnaryFunction) : function ∈ all := by
  cases function <;> decide

@[simp] theorem ofName?_name (function : UnaryFunction) :
    ofName? function.name = some function := by
  cases function <;> decide

theorem ofName?_eq_some_iff {word : String} {function : UnaryFunction} :
    ofName? word = some function ↔ word = function.name := by
  constructor
  · intro found
    have named := List.find?_some found
    exact (beq_iff_eq.mp named).symm
  · rintro rfl
    exact ofName?_name function

end UnaryFunction

end Keypad
