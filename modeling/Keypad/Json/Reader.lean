import Keypad.Json

/-!
# Reading JSON objects

The reader takes objects of texts and truth values without blanks, in any order of fields and with
any escapes but those for halves of a surrogate pair. What is written reads back
(`readObject?_writeObject`).
-/

namespace Keypad.Json

def hexDigit? (c : Char) : Option Nat :=
  if c.isDigit then some (c.toNat - '0'.toNat)
  else if 'a' ≤ c ∧ c ≤ 'f' then some (c.toNat - 'a'.toNat + 10)
  else if 'A' ≤ c ∧ c ≤ 'F' then some (c.toNat - 'A'.toNat + 10)
  else none

/-- The character with a code of four digits. -/
def hexChar? (digits : List Char) : Option Char := do
  let values ← digits.mapM hexDigit?
  let code := values.foldl (fun code digit => 16 * code + digit) 0
  if code.isValidChar then some (Char.ofNat code) else none

/-- The character that is escaped by one letter or sign. -/
def ofEscape? (c : Char) : Option Char :=
  match c with
  | '"' => some '"'
  | '\\' => some '\\'
  | '/' => some '/'
  | 'b' => some '\x08'
  | 't' => some '\t'
  | 'n' => some '\n'
  | 'f' => some '\x0c'
  | 'r' => some '\r'
  | _ => none

/-- Reads a text up to its closing quote, and gives what follows the quote. -/
def readText? : List Char → Option (List Char × List Char)
  | [] => none
  | c :: rest =>
    if c = '"' then some ([], rest)
    else if c = '\\' then
      match rest with
      | 'u' :: d₃ :: d₂ :: d₁ :: d₀ :: rest => do
        let character ← hexChar? [d₃, d₂, d₁, d₀]
        (readText? rest).map fun (text, rest) => (character :: text, rest)
      | e :: rest => do
        let character ← ofEscape? e
        (readText? rest).map fun (text, rest) => (character :: text, rest)
      | [] => none
    else if c.toNat < 32 then none
    else (readText? rest).map fun (text, rest) => (c :: text, rest)

/-- Reads a quoted text. -/
def readQuoted? : List Char → Option (String × List Char)
  | '"' :: rest => (readText? rest).map fun (text, rest) => (String.ofList text, rest)
  | _ => none

def readValue? : List Char → Option (Value × List Char)
  | '"' :: rest => (readText? rest).map fun (text, rest) => (.text (String.ofList text), rest)
  | 't' :: 'r' :: 'u' :: 'e' :: rest => some (.truth true, rest)
  | 'f' :: 'a' :: 'l' :: 's' :: 'e' :: rest => some (.truth false, rest)
  | _ => none

def readField? (input : List Char) : Option ((String × Value) × List Char) := do
  match ← readQuoted? input with
  | (name, ':' :: rest) => (readValue? rest).map fun (value, rest) => ((name, value), rest)
  | _ => none

/-- Reads at most `count` fields up to the closing brace. -/
def readFields? : Nat → List Char → Option (List (String × Value))
  | 0, _ => none
  | count + 1, input => do
    match ← readField? input with
    | (field, ',' :: rest) => (readFields? count rest).map (field :: ·)
    | (field, ['\x7d']) => some [field]
    | _ => none

/-- Reads a whole object. It has fewer fields than characters. -/
def readObject? (text : String) : Option (List (String × Value)) :=
  match text.toList with
  | '\x7b' :: rest => if rest = ['\x7d'] then some [] else readFields? rest.length rest
  | _ => none

/-! ## What is written reads back -/

theorem hexDigit?_digitChar {digit : Nat} (small : digit < 16) :
    hexDigit? digit.digitChar = some digit := by
  revert digit
  decide

theorem readText?_control {c : Char} (control : c.toNat < 32) (rest : List Char) :
    readText? ('\\' :: 'u' :: '0' :: '0' :: Nat.digitChar (c.toNat / 16) ::
        Nat.digitChar (c.toNat % 16) :: rest) =
      (readText? rest).map fun (text, rest) => (c :: text, rest) := by
  have high : hexDigit? (Nat.digitChar (c.toNat / 16)) = some (c.toNat / 16) :=
    hexDigit?_digitChar (by omega)
  have low : hexDigit? (Nat.digitChar (c.toNat % 16)) = some (c.toNat % 16) :=
    hexDigit?_digitChar (by omega)
  have zero : hexDigit? '0' = some 0 := by decide
  have sum : 16 * (c.toNat / 16) + c.toNat % 16 = c.toNat := by omega
  have valid : c.toNat.isValidChar := c.valid
  simp [readText?, hexChar?, high, low, zero, sum, valid]

theorem readText?_closing (rest : List Char) : readText? ('"' :: rest) = some ([], rest) := by
  rw [readText?.eq_def]
  rfl

theorem readText?_raw {c : Char} (unquoted : c ≠ '"') (unescaped : c ≠ '\\')
    (printable : 32 ≤ c.toNat) (rest : List Char) :
    readText? (c :: rest) = (readText? rest).map fun (text, rest) => (c :: text, rest) := by
  rw [readText?.eq_def]
  simp [unquoted, unescaped, Nat.not_lt.mpr printable]

theorem readText?_escape (c : Char) (rest : List Char) :
    readText? (escape c ++ rest) = (readText? rest).map fun (text, rest) => (c :: text, rest) := by
  unfold escape
  split
  next quoted => simp [readText?, ofEscape?, quoted]
  split
  next escaped => simp [readText?, ofEscape?, escaped]
  split
  next escaped => simp [readText?, ofEscape?, escaped]
  split
  next escaped => simp [readText?, ofEscape?, escaped]
  split
  next escaped => simp [readText?, ofEscape?, escaped]
  split
  next escaped => simp [readText?, ofEscape?, escaped]
  split
  next escaped => simp [readText?, ofEscape?, escaped]
  split
  next control => exact readText?_control control rest
  next unquoted unescaped _ _ _ _ _ printable =>
    exact readText?_raw unquoted unescaped (Nat.not_lt.mp printable) rest

theorem readText?_flatMap_escape (text rest : List Char) :
    readText? (text.flatMap escape ++ '"' :: rest) = some (text, rest) := by
  induction text with
  | nil => exact readText?_closing rest
  | cons c text inductionHypothesis =>
    simp [List.append_assoc, readText?_escape, inductionHypothesis]

@[simp] theorem readQuoted?_quote (text : String) (rest : List Char) :
    readQuoted? (quote text ++ rest) = some (text, rest) := by
  simp [readQuoted?, quote, readText?_flatMap_escape]

@[simp] theorem readValue?_write (value : Value) (rest : List Char) :
    readValue? (value.write ++ rest) = some (value, rest) := by
  match value with
  | .text t => simp [Value.write, quote, readValue?, readText?_flatMap_escape]
  | .truth true => rfl
  | .truth false => rfl

@[simp] theorem readField?_writeField (field : String × Value) (rest : List Char) :
    readField? (writeField field ++ rest) = some (field, rest) := by
  simp [readField?, writeField]

theorem length_writeField_pos (field : String × Value) : 0 < (writeField field).length := by
  simp [writeField, quote]

theorem length_le_length_writeFields (fields : List (String × Value)) :
    fields.length ≤ (writeFields fields).length := by
  induction fields with
  | nil => exact Nat.le_refl _
  | cons field later inductionHypothesis =>
    have positive := length_writeField_pos field
    cases later with
    | nil => exact positive
    | cons next later =>
      simp only [writeFields, List.length_append, List.length_cons] at inductionHypothesis ⊢
      omega

theorem readFields?_writeFields {fields : List (String × Value)} (nonempty : fields ≠ [])
    {count : Nat} (enough : fields.length ≤ count) :
    readFields? count (writeFields fields ++ ['\x7d']) = some fields := by
  induction fields generalizing count with
  | nil => contradiction
  | cons field later inductionHypothesis =>
    obtain ⟨fewer, rfl⟩ : ∃ fewer, count = fewer + 1 :=
      ⟨count - 1, by simp only [List.length_cons] at enough; omega⟩
    cases later with
    | nil => simp [writeFields, readFields?]
    | cons next later =>
      have rest :
          readFields? fewer (writeFields (next :: later) ++ ['\x7d']) = some (next :: later) :=
        inductionHypothesis (by simp) (by simpa using enough)
      simp [writeFields, readFields?, rest]

theorem readObject?_writeObject (fields : List (String × Value)) :
    readObject? (writeObject fields) = some fields := by
  cases fields with
  | nil => rfl
  | cons field later =>
    have enough := length_le_length_writeFields (field :: later)
    have read : readFields? (writeFields (field :: later) ++ ['\x7d']).length
        (writeFields (field :: later) ++ ['\x7d']) = some (field :: later) :=
      readFields?_writeFields (List.cons_ne_nil field later) (by rw [List.length_append]; omega)
    have unclosed : writeFields (field :: later) ++ ['\x7d'] ≠ ['\x7d'] := by
      intro closed
      have lengths := congrArg List.length closed
      simp only [List.length_append, List.length_cons] at lengths enough
      omega
    simp only [readObject?, writeObject, String.toList_ofList, List.cons_append, if_neg unclosed,
      read]

end Keypad.Json
