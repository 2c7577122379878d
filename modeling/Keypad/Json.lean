/-!
# JSON objects

Objects of named texts and truth values on one line, without blanks.
-/

namespace Keypad.Json

/-- The value of a field. -/
inductive Value where
  | text (text : String)
  | truth (value : Bool)
deriving DecidableEq, Repr

/-- Quotes, backslashes and the control characters below `U+0020` are escaped, and nothing else. -/
def escape (c : Char) : List Char :=
  if c = '"' then ['\\', '"']
  else if c = '\\' then ['\\', '\\']
  else if c = '\x08' then ['\\', 'b']
  else if c = '\t' then ['\\', 't']
  else if c = '\n' then ['\\', 'n']
  else if c = '\x0c' then ['\\', 'f']
  else if c = '\r' then ['\\', 'r']
  else if c.toNat < 32 then
    ['\\', 'u', '0', '0', Nat.digitChar (c.toNat / 16), Nat.digitChar (c.toNat % 16)]
  else [c]

def quote (text : String) : List Char :=
  '"' :: text.toList.flatMap escape ++ ['"']

def Value.write : Value → List Char
  | text t => quote t
  | truth true => "true".toList
  | truth false => "false".toList

def writeField (field : String × Value) : List Char :=
  quote field.1 ++ ':' :: field.2.write

/-- Fields with commas between them. -/
def writeFields : List (String × Value) → List Char
  | [] => []
  | [field] => writeField field
  | field :: later => writeField field ++ ',' :: writeFields later

/-- The object with the given fields, in their order. -/
def writeObject (fields : List (String × Value)) : String :=
  String.ofList ('\x7b' :: writeFields fields ++ ['\x7d'])

end Keypad.Json
