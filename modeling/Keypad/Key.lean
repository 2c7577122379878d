/-!
# Keys

The keys of the keypad and the labels printed on them.
-/

namespace Keypad

/-- A key that types text, or one of the three control keys. -/
inductive Key where
  | input (text : String)
  | clear
  | backspace
  | calculate
deriving DecidableEq, Repr

namespace Key

/-- A label that names no control key is the text that its key types. -/
def ofLabel (label : String) : Key :=
  if label = "C" ∨ label = "AC" then clear
  else if label = "⌫" ∨ label = "<" then backspace
  else if label = "=" then calculate
  else input label

def ofChar (c : Char) : Key :=
  ofLabel c.toString

end Key

end Keypad
