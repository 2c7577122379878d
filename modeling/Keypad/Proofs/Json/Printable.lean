import Keypad.Json

/-!
# Objects on one line

Everything below `U+0020` is escaped, so an object has no control characters in it, whatever its
texts are (`printable_writeObject`), and stays on one line.
-/

namespace Keypad.Json

/-- A text without control characters. -/
def Printable (text : List Char) : Prop :=
  ∀ c ∈ text, 32 ≤ c.toNat

@[simp] theorem printable_append {text later : List Char} :
    Printable (text ++ later) ↔ Printable text ∧ Printable later :=
  List.forall_mem_append

@[simp] theorem printable_cons {c : Char} {text : List Char} :
    Printable (c :: text) ↔ 32 ≤ c.toNat ∧ Printable text :=
  List.forall_mem_cons

@[simp] theorem printable_nil : Printable [] := fun c member => by cases member

theorem printable_digitChar {digit : Nat} (small : digit < 16) :
    32 ≤ (Nat.digitChar digit).toNat := by
  revert digit
  decide

theorem printable_escape (c : Char) : Printable (escape c) := by
  unfold escape
  repeat' split
  any_goals solve | simp
  next control =>
    have high := printable_digitChar (show c.toNat / 16 < 16 by omega)
    have low := printable_digitChar (show c.toNat % 16 < 16 by omega)
    simp [high, low]
  next printable => simpa using printable

theorem printable_quote (text : String) : Printable (quote text) := by
  have escaped : Printable (text.toList.flatMap escape) := by
    intro e member
    obtain ⟨c, -, inside⟩ := List.mem_flatMap.mp member
    exact printable_escape c e inside
  simp [quote, escaped]

theorem printable_write (value : Value) : Printable value.write := by
  match value with
  | .text text => exact printable_quote text
  | .truth true => simp [Value.write]
  | .truth false => simp [Value.write]

theorem printable_writeField (field : String × Value) : Printable (writeField field) := by
  simp [writeField, printable_quote, printable_write]

theorem printable_writeFields (fields : List (String × Value)) :
    Printable (writeFields fields) := by
  induction fields with
  | nil => exact printable_nil
  | cons field later inductionHypothesis =>
    cases later with
    | nil => exact printable_writeField field
    | cons next later => simp [writeFields, printable_writeField, inductionHypothesis]

theorem printable_writeObject (fields : List (String × Value)) :
    Printable (writeObject fields).toList := by
  simp [writeObject, printable_writeFields]

end Keypad.Json
