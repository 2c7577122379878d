import Keypad.Proofs.Token.Composition
import Keypad.Proofs.Text.Pieces
import Keypad.Proofs.Token.Faults

/-!
# Where scanning fails

A run is read exactly if it has no fault, and runs are read from left to right. So the first fault of
a text is what scanning it reports, and a text without faults is read as a whole
(`scan_eq_error_iff_firstFault`).
-/

namespace Keypad

open Text

/-! ## Single runs -/

namespace Lexeme

theorem exists_ofNumeral? {run : Run Char}
    (numeral : ∀ c ∈ run.toList, Decimal.isNumeralChar c = true) (valid : ¬ Misread run) :
    ∃ value, Number.ofNumeral? run.toList = some value := by
  have found := Decimal.isSome_ofNumeral? run.toList
  rw [(isNumeral_iff numeral).mpr valid] at found
  obtain ⟨decimal, same⟩ := Option.isSome_iff_exists.mp found
  exact ⟨_, by rw [Number.ofNumeral?, same]; rfl⟩

theorem ofRun_misread {run : Run Char} (misread : Misread run)
    (numeral : ∀ c ∈ run.toList, Decimal.isNumeralChar c = true) (position : Nat) :
    ofRun position run = .error (.invalidNumber (String.ofList run.toList)) := by
  have unreadable : Decimal.isNumeral run.toList ≠ true := by
    intro isNumeral
    exact (isNumeral_iff numeral).mp isNumeral misread
  rw [ofRun, if_pos (numeral run.first List.mem_cons_self), Number.ofNumeral?, Decimal.ofNumeral?,
    if_neg unreadable]
  rfl

/-- A foreign character is neither part of a numeral nor a letter. -/
theorem symbol_of_foreign {c : Char} (foreign : isCanonicalChar c = false) :
    Decimal.isNumeralChar c = false ∧ c.isAlpha = false := by
  constructor
  · cases numeral : Decimal.isNumeralChar c with
    | false => rfl
    | true => simp [isCanonicalChar_of_isNumeralChar numeral] at foreign
  · cases letter : c.isAlpha with
    | false => rfl
    | true => simp [isCanonicalChar_of_isAlpha letter] at foreign

theorem ofSymbol?_of_foreign {c : Char} (foreign : isCanonicalChar c = false) :
    ofSymbol? c = none := by
  have differs : ∀ other, isCanonicalChar other = true → c ≠ other := by
    rintro other canonical rfl
    simp [canonical] at foreign
  have symbols : ∀ op ∈ OperatorTable.common.entries, isCanonicalChar op.symbol = true := by decide
  have unknown : OperatorTable.common.get? c = none := by
    apply List.find?_eq_none.mpr
    intro op member
    rw [beq_iff_eq]
    exact (differs op.symbol (symbols op member)).symm
  rw [ofSymbol?, if_neg (differs '(' rfl), if_neg (differs ')' rfl), unknown]
  rfl

theorem ofRun_foreign {c : Char} (foreign : isCanonicalChar c = false) (position : Nat) :
    ofRun position ⟨c, []⟩ = .error (.invalidCharacter c position) := by
  obtain ⟨other, nonletter⟩ := symbol_of_foreign foreign
  simp [ofRun, other, nonletter, ofSymbol?_of_foreign foreign]

theorem exists_ofSymbol? {c : Char} (canonical : isCanonicalChar c = true)
    (other : Decimal.isNumeralChar c = false) (nonletter : c.isAlpha = false) :
    ∃ lexeme, ofSymbol? c = some lexeme := by
  have signs : ∀ sign ∈ ".+-*/^()".toList, Decimal.isNumeralChar sign = false →
      (ofSymbol? sign).isSome = true := forall_mem_of_all (by decide)
  simp only [isCanonicalChar, Canonical.isDigit_of_not_isNumeralChar other, nonletter,
    Bool.false_or, List.contains_iff_mem] at canonical
  exact Option.isSome_iff_exists.mp (signs c canonical other)

theorem ofRun_sound {run : Run Char} (alone : Run.split joins run.toList = [run])
    (sound : isSound isCanonicalChar run = true) : ∃ lexeme, ofRun 0 run = .ok lexeme := by
  have member : run ∈ Run.split joins run.toList := by
    rw [alone]
    exact List.mem_cons_self
  rw [isSound, Bool.and_eq_true, List.all_eq_true] at sound
  obtain ⟨canonical, valid⟩ := sound
  cases numeral : Decimal.isNumeralChar run.first with
  | true =>
    rw [numeral, Bool.true_and, Bool.not_eq_true', decide_eq_false_iff_not] at valid
    obtain ⟨value, valued⟩ := exists_ofNumeral? (isNumeralChar_of_run member numeral) valid
    exact ⟨.number value, by simp [ofRun, numeral, valued]⟩
  | false =>
    cases letter : run.first.isAlpha with
    | true => exact ⟨.word (String.ofList run.toList), by simp [ofRun, numeral, letter]⟩
    | false =>
      obtain ⟨lexeme, found⟩ :=
        exists_ofSymbol? (canonical run.first List.mem_cons_self) numeral letter
      exact ⟨lexeme, by simp [ofRun, numeral, letter, found]⟩

theorem ofRuns_of_faultless {text : List Char} (faultless : Faultless isCanonicalChar text) :
    ∃ lexemes, ofRuns (Run.split joins text) = .ok lexemes := by
  rw [faultless_iff] at faultless
  induction text using Run.induction_on_split joins with
  | nil => exact ⟨[], rfl⟩
  | cons run later alone apart inductionHypothesis =>
    rw [Run.split_append_of_apart apart, alone, List.singleton_append] at faultless ⊢
    rw [List.all_cons, Bool.and_eq_true] at faultless
    obtain ⟨lexeme, here⟩ := ofRun_sound alone faultless.1
    obtain ⟨lexemes, behind⟩ := inductionHypothesis faultless.2
    exact ⟨lexeme :: lexemes, by rw [ofRuns, here, behind]; rfl⟩

end Lexeme

/-! ## The first fault -/

/-- The first fault of a text, as the failure that reports it: a run of digits and points that is no
    numeral, or a character that canonical text does not have, with no fault in front of it. -/
inductive Text.FirstFault : List Char → Failure → Prop where
  | numeral {before after : List Char} {run : Run Char} : IsNumeralRun before run after →
      Misread run → Faultless isCanonicalChar before →
      FirstFault (before ++ run.toList ++ after) (.invalidNumber (String.ofList run.toList))
  | character {before after : List Char} {c : Char} : isCanonicalChar c = false →
      Faultless isCanonicalChar before →
      FirstFault (before ++ c :: after) (.invalidCharacter c (String.ofList before).utf8ByteSize)

namespace Token

theorem scan_of_faultless {text : String} (faultless : Faultless isCanonicalChar text.toList) :
    ∃ tokens, scan text = .ok tokens := by
  obtain ⟨lexemes, read⟩ := Lexeme.ofRuns_of_faultless faultless
  exact exists_ofRuns read 0

theorem ofRuns_of_firstFault {text : List Char} {failure : Failure}
    (fault : FirstFault text failure) :
    ofRuns 0 (Run.split Lexeme.joins text) = .error failure := by
  cases fault with
  | numeral isRun misread faultless =>
    obtain ⟨lexemes, read⟩ := Lexeme.ofRuns_of_faultless faultless
    rw [isRun.split]
    exact ofRuns_of_error read (Lexeme.ofRun_misread misread isRun.numeral _) _
  | @character before after c foreign faultless =>
    obtain ⟨lexemes, read⟩ := Lexeme.ofRuns_of_faultless faultless
    obtain ⟨other, nonletter⟩ := Lexeme.symbol_of_foreign foreign
    rw [Run.split_append (Lexeme.joins_right_of_symbol other nonletter),
      Run.split_cons_of_apart (Lexeme.joins_left_of_symbol other nonletter), utf8ByteSize_ofList]
    apply ofRuns_of_error read
    rw [Run.flatMap_toList_split, Nat.zero_add]
    exact Lexeme.ofRun_foreign foreign _

/-- A text is scanned as a whole, or fails with its first fault. -/
theorem scanned_or_firstFault (text : String) :
    (Faultless isCanonicalChar text.toList ∧ ∃ tokens, scan text = .ok tokens) ∨
      ∃ failure, FirstFault text.toList failure ∧ scan text = .error failure := by
  obtain faultless | ⟨before, run, after, same, isRun, misread, front⟩ |
    ⟨before, c, after, same, foreign, front⟩ := faultless_or_first_fault
      isCanonicalChar_of_isNumeralChar isCanonicalChar_of_isAlpha text.toList
  · exact .inl ⟨faultless, scan_of_faultless faultless⟩
  · have fault := FirstFault.numeral isRun misread front
    rw [← same] at fault
    exact .inr ⟨_, fault, ofRuns_of_firstFault fault⟩
  · have fault : FirstFault (before ++ c :: after) _ := .character foreign front
    rw [← same] at fault
    exact .inr ⟨_, fault, ofRuns_of_firstFault fault⟩

/-- Scanning fails with the first fault of the text and with nothing else, and gives tokens exactly
    if the text has no fault. -/
theorem scan_eq_error_iff_firstFault (text : String) :
    (∀ failure, scan text = .error failure ↔ FirstFault text.toList failure) ∧
      ((∃ tokens, scan text = .ok tokens) ↔ Faultless isCanonicalChar text.toList) := by
  constructor
  · intro failure
    constructor
    · intro failed
      obtain ⟨-, tokens, scanned⟩ | ⟨other, fault, failedSo⟩ := scanned_or_firstFault text
      · rw [scanned] at failed
        cases failed
      · rw [failedSo] at failed
        cases failed
        exact fault
    · exact ofRuns_of_firstFault
  · constructor
    · rintro ⟨tokens, scanned⟩
      obtain ⟨faultless, -⟩ | ⟨failure, -, failed⟩ := scanned_or_firstFault text
      · exact faultless
      · rw [failed] at scanned
        cases scanned
    · exact scan_of_faultless

end Token

end Keypad
