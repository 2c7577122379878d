import Keypad.Proofs.Token.Faults

/-!
# What slices of a text say

A run of a text is read as a lexeme exactly if the lexeme is what the run says (`reads_of_ofRun`,
`ofRun_of_reads`): a parenthesis, an operator, a word or the value of a numeral. The rule looks at the
slice alone, not at how the text was cut.
-/

namespace Keypad

theorem Decimal.isNumeralChar_iff (c : Char) :
    isNumeralChar c = true ↔ c.isDigit = true ∨ c = '.' := by
  simp [isNumeralChar]

namespace Lexeme

/-- What a slice of a text says. -/
inductive Reads : Lexeme → String → Prop where
  | leftParen : Reads .leftParen "("
  | rightParen : Reads .rightParen ")"
  | operator {symbol : Char} {op : Operator} : OperatorTable.common.get? symbol = some op →
      Reads (.operator op) symbol.toString
  | word {name : String} : (∀ c ∈ name.toList, c.isAlpha = true) → Reads (.word name) name
  | number {numeral : String} {value : Float} :
      (∀ c ∈ numeral.toList, c.isDigit = true ∨ c = '.') →
      Number.ofNumeral? numeral.toList = some value → Reads (.number value) numeral

def isNumber : Lexeme → Bool
  | number _ => true
  | _ => false

def isWord : Lexeme → Bool
  | word _ => true
  | _ => false

theorem symbol_of_common {symbol : Char} {op : Operator}
    (found : OperatorTable.common.get? symbol = some op) :
    Decimal.isNumeralChar symbol = false ∧ symbol.isAlpha = false ∧ symbol ≠ '(' ∧ symbol ≠ ')' := by
  have symbols : ∀ op ∈ OperatorTable.common.entries, Decimal.isNumeralChar op.symbol = false ∧
      op.symbol.isAlpha = false ∧ op.symbol ≠ '(' ∧ op.symbol ≠ ')' := by decide
  rw [← OperatorTable.symbol_of_get? found]
  exact symbols op (List.mem_of_find?_eq_some found)

theorem reads_of_ofSymbol? {c : Char} {lexeme : Lexeme} (found : ofSymbol? c = some lexeme) :
    lexeme.Reads c.toString := by
  rw [ofSymbol?] at found
  split at found
  next opens =>
    cases found
    rw [opens]
    exact .leftParen
  next =>
    split at found
    next closes =>
      cases found
      rw [closes]
      exact .rightParen
    next =>
      obtain ⟨op, entry, rfl⟩ := Option.map_eq_some_iff.mp found
      exact .operator entry

theorem reads_of_ofRun {run : Run Char} (alone : Run.split joins run.toList = [run])
    {position : Nat} {lexeme : Lexeme} (read : ofRun position run = .ok lexeme) :
    lexeme.Reads (String.ofList run.toList) := by
  have member : run ∈ Run.split joins run.toList := by simp [alone]
  rw [ofRun] at read
  split at read
  next numeral =>
    have within := isNumeralChar_of_run member numeral
    split at read
    next value valued =>
      cases read
      apply Reads.number
      · simpa [← Decimal.isNumeralChar_iff] using within
      · simpa using valued
    next => cases read
  next numeral =>
    split at read
    next letter =>
      cases read
      apply Reads.word
      simpa using isAlpha_of_run member letter
    next letter =>
      rw [Bool.not_eq_true] at numeral letter
      rw [eq_of_sign_run alone numeral letter]
      split at read
      next found =>
        cases read
        exact reads_of_ofSymbol? found
      next => cases read

theorem ofRun_of_reads {run : Run Char} {lexeme : Lexeme}
    (reads : lexeme.Reads (String.ofList run.toList)) :
    Run.split joins run.toList = [run] ∧ ∀ position, ofRun position run = .ok lexeme := by
  obtain ⟨first, rest⟩ := run
  generalize same : String.ofList (Run.toList ⟨first, rest⟩) = slice at reads
  rw [← String.toList_inj, String.toList_ofList] at same
  cases reads with
  | leftParen =>
    cases same
    exact ⟨rfl, fun _ => rfl⟩
  | rightParen =>
    cases same
    exact ⟨rfl, fun _ => rfl⟩
  | @operator symbol op found =>
    obtain ⟨other, nonletter, opens, closes⟩ := symbol_of_common found
    obtain ⟨rfl, rfl⟩ : first = symbol ∧ rest = [] := by simpa [Run.toList] using same
    exact ⟨rfl, fun _ => by simp [ofRun, ofSymbol?, other, nonletter, opens, closes, found]⟩
  | word letters =>
    rw [← same] at letters
    have other := Canonical.isNumeralChar_of_isAlpha (letters first List.mem_cons_self)
    refine ⟨split_word letters, fun _ => ?_⟩
    simp [ofRun, other, letters first List.mem_cons_self, same]
  | number numeral valued =>
    have within := fun c member => (Decimal.isNumeralChar_iff c).mpr (numeral c member)
    rw [← same] at within valued
    refine ⟨split_numeral within, fun _ => ?_⟩
    simp [ofRun, within first List.mem_cons_self, valued]

/-- A slice is made of the characters of its kind of token. -/
theorem class_of_reads {lexeme : Lexeme} {slice : String} (reads : lexeme.Reads slice) :
    ∀ c ∈ slice.toList, Decimal.isNumeralChar c = lexeme.isNumber ∧ c.isAlpha = lexeme.isWord := by
  intro c member
  cases reads with
  | leftParen =>
    obtain rfl : c = '(' := by simpa using member
    exact ⟨rfl, rfl⟩
  | rightParen =>
    obtain rfl : c = ')' := by simpa using member
    exact ⟨rfl, rfl⟩
  | operator found =>
    obtain ⟨other, nonletter, -⟩ := symbol_of_common found
    obtain rfl : c = _ := by simpa using member
    exact ⟨other, nonletter⟩
  | word letters => exact ⟨Canonical.isNumeralChar_of_isAlpha (letters c member), letters c member⟩
  | number numeral _ =>
    have within := (Decimal.isNumeralChar_iff c).mpr (numeral c member)
    exact ⟨within, Canonical.isAlpha_of_isNumeralChar within⟩

theorem letters_of_word {name slice : String} (reads : (word name).Reads slice) :
    slice = name ∧ ∀ c ∈ name.toList, c.isAlpha = true := by
  cases reads with
  | word letters => exact ⟨rfl, letters⟩

/-- A slice that can be read is a numeral, a word or a single sign. -/
theorem cases_of_reads {lexeme : Lexeme} {slice : String} (reads : lexeme.Reads slice) :
    (∀ c ∈ slice.toList, Decimal.isNumeralChar c = true) ∨ lexeme = .word slice ∨
      ∀ c ∈ slice.toList, (ofSymbol? c).isSome = true := by
  cases reads with
  | leftParen => exact .inr (.inr (by simp [ofSymbol?]))
  | rightParen => exact .inr (.inr (by simp [ofSymbol?]))
  | operator found =>
    obtain ⟨-, -, opens, closes⟩ := symbol_of_common found
    exact .inr (.inr (by simp [ofSymbol?, opens, closes, found]))
  | word _ => exact .inr (.inl rfl)
  | number numeral _ =>
    exact .inl fun c member => (Decimal.isNumeralChar_iff c).mpr (numeral c member)

/-- What is no number is written as it is listed. -/
theorem text_of_reads {lexeme : Lexeme} {slice : String} (reads : lexeme.Reads slice)
    (other : ∀ value, lexeme ≠ .number value) : lexeme.text = slice := by
  cases reads with
  | leftParen => rfl
  | rightParen => rfl
  | operator found => rw [text, OperatorTable.symbol_of_get? found]
  | word _ => rfl
  | number _ _ => exact absurd rfl (other _)

end Lexeme

end Keypad
