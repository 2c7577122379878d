import Mathlib.Data.List.Chain
import Keypad.Evaluation
import Keypad.Proofs.Evaluation.Position
import Keypad.Proofs.Number.ReadBack
import Keypad.Proofs.Token.Tiling

/-!
# Tokens written without spaces

The text of a finite token is a slice that says what the token says (`reads_text_of_scan`), and no two
neighbours among the tokens of a text can run into each other. So their texts need no spaces between
them to be scanned into the same lexemes again (`scan_unspaced`).
-/

namespace Keypad

/-- A lexeme whose number, if it is one, is finite. -/
def Lexeme.IsFinite (lexeme : Lexeme) : Prop :=
  ∀ value, lexeme = .number value → value.isFinite = true

theorem Lexeme.reads_text {lexeme : Lexeme} {slice : String} (reads : lexeme.Reads slice)
    (finite : lexeme.IsFinite) : lexeme.Reads lexeme.text := by
  cases reads with
  | @number numeral value _ valued =>
    have positive := Number.signBit_of_ofNumeral? valued
    have isFinite := finite value rfl
    have written := Number.Style.write_of_positive .listing isFinite positive
    apply Lexeme.Reads.number
    · intro c member
      rw [text, written] at member
      exact (Decimal.isNumeralChar_iff c).mp (Decimal.isNumeralChar_of_mem_numeral member)
    · exact Number.ofNumeral?_write .listing isFinite positive
  | leftParen => exact .leftParen
  | rightParen => exact .rightParen
  | operator found =>
    rw [text, OperatorTable.symbol_of_get? found]
    exact .operator found
  | word letters => exact .word letters

theorem Lexeme.text_ne_nil {lexeme : Lexeme} {slice : String} (reads : lexeme.Reads slice)
    (finite : lexeme.IsFinite) (nonempty : slice.toList ≠ []) : lexeme.text.toList ≠ [] := by
  cases reads with
  | @number numeral value _ valued =>
    rw [text, Number.Style.write_of_positive .listing (finite value rfl)
      (Number.signBit_of_ofNumeral? valued)]
    exact Decimal.numeral_ne_nil _
  | leftParen | rightParen | word _ => exact nonempty
  | operator _ => simp [text]

namespace Token

/-- The listing of tokens without its spaces. -/
def unspaced (tokens : List Token) : String :=
  String.join (tokens.map fun token => token.lexeme.text)

theorem unspaced_congr {tokens other : List Token}
    (same : tokens.map Token.lexeme = other.map Token.lexeme) :
    unspaced tokens = unspaced other := by
  have texts := congrArg (List.map Lexeme.text) same
  rw [List.map_map, List.map_map] at texts
  exact congrArg String.join texts

theorem reads_text_of_scan {text : String} {tokens : List Token}
    (scanned : scan text = .ok tokens) {token : Token} (member : token ∈ tokens)
    (finite : token.lexeme.IsFinite) :
    token.lexeme.Reads token.lexeme.text ∧ token.lexeme.text.toList ≠ [] := by
  obtain ⟨front, back, rfl⟩ := List.append_of_mem member
  obtain ⟨before, run, after, -, -, alone, -, -, found⟩ := stretch_of_scan scanned
  have reads := Lexeme.reads_of_ofRun alone found
  have nonempty : (String.ofList run.toList).toList ≠ [] := by
    rw [String.toList_ofList]
    exact run.toList_ne_nil
  exact ⟨Lexeme.reads_text reads finite, Lexeme.text_ne_nil reads finite nonempty⟩

/-- Slices of which no two neighbours are alike are scanned one by one. -/
theorem exists_ofRuns_texts {lexemes : List Lexeme}
    (read : ∀ lexeme ∈ lexemes, lexeme.Reads lexeme.text ∧ lexeme.text.toList ≠ [])
    (apart : lexemes.IsChain fun left right => left.alike right = false) (position : Nat) :
    ∃ tokens, ofRuns position
        (Run.split Lexeme.joins (lexemes.flatMap fun lexeme => lexeme.text.toList)) = .ok tokens ∧
      tokens.map Token.lexeme = lexemes := by
  induction lexemes generalizing position with
  | nil => exact ⟨[], rfl, rfl⟩
  | cons lexeme lexemes inductionHypothesis =>
    obtain ⟨reads, nonempty⟩ := read lexeme List.mem_cons_self
    obtain ⟨unlike, apartLater⟩ := List.isChain_cons.mp apart
    obtain ⟨tokens, behind, rfl⟩ := inductionHypothesis
      (fun other member => read other (List.mem_cons_of_mem _ member)) apartLater
      (position + byteLength lexeme.text.toList)
    refine ⟨_, ofRuns_slice_append nonempty ?_ behind ?_, rfl⟩
    · rwa [String.ofList_toList]
    · intro next isNext
      apply unlike
      rw [List.head?_map, isNext]
      rfl

/-- The tokens of a text, written without spaces, are scanned into the same lexemes. So they have the
    same value or the same failure up to its position, and are written in the same way again. -/
theorem scan_unspaced {text : String} {tokens : List Token} (scanned : scan text = .ok tokens)
    (finite : ∀ token ∈ tokens, token.lexeme.IsFinite) :
    ∃ again, scan (unspaced tokens) = .ok again ∧
      again.map Token.lexeme = tokens.map Token.lexeme ∧
      (Evaluation.ofTokens again).mapError Failure.withoutPosition =
        (Evaluation.ofTokens tokens).mapError Failure.withoutPosition ∧
      unspaced again = unspaced tokens := by
  have read : ∀ lexeme ∈ tokens.map Token.lexeme,
      lexeme.Reads lexeme.text ∧ lexeme.text.toList ≠ [] := by
    intro lexeme member
    obtain ⟨token, among, rfl⟩ := List.mem_map.mp member
    exact reads_text_of_scan scanned among (finite token among)
  have apart : (tokens.map Token.lexeme).IsChain fun left right => left.alike right = false := by
    rw [List.isChain_map]
    exact apart_of_ofRuns scanned
  obtain ⟨again, rescanned, same⟩ := exists_ofRuns_texts read apart 0
  refine ⟨again, ?_, same, ?_, unspaced_congr same⟩
  · rw [scan, unspaced, String.toList_join, List.flatMap_map]
    rwa [List.flatMap_map] at rescanned
  · rw [Evaluation.withoutPosition_ofTokens, Evaluation.withoutPosition_ofTokens, same]

def looseNumerals : List Token :=
  [⟨.number 7, ⟨0, 4⟩⟩, ⟨.operator .add, ⟨4, 5⟩⟩, ⟨.word "sin", ⟨5, 8⟩⟩, ⟨.number 0.5, ⟨8, 11⟩⟩]

/-- Numerals lose their leading zeros and gain the digit before the point. -/
theorem scan_unspaced_of_looseNumerals :
    scan "007.+sin.50" = .ok looseNumerals ∧
      (∀ token ∈ looseNumerals, token.lexeme.IsFinite) ∧
      unspaced looseNumerals = "7+sin0.5" ∧
      ∃ again, scan "7+sin0.5" = .ok again ∧
        again.map Token.lexeme = looseNumerals.map Token.lexeme ∧
        (Evaluation.ofTokens again).mapError Failure.withoutPosition =
          (Evaluation.ofTokens looseNumerals).mapError Failure.withoutPosition ∧
        unspaced again = "7+sin0.5" := by
  have scanned : scan "007.+sin.50" = .ok looseNumerals := ok_of_toOption (by decide +kernel)
  have finite : ∀ token ∈ looseNumerals, token.lexeme.IsFinite := by
    simp [looseNumerals, Lexeme.IsFinite]
    decide
  have written : unspaced looseNumerals = "7+sin0.5" := by decide +kernel
  have rescanned := scan_unspaced scanned finite
  rw [written] at rescanned
  exact ⟨scanned, finite, written, rescanned⟩

end Token

end Keypad
