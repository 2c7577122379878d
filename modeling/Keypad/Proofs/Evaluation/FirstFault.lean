import Keypad.Proofs.Evaluation.Characters
import Keypad.Proofs.Token.Failures

/-!
# The first fault decides

Making a text canonical adds signs and a numeral to it, and yet leaves its faults as they are: a
faultless text is read (`reading_of_faultless`), a run that is no numeral is still cut out as it was
typed (`split_around_run`), and so is a character that no expression has (`split_around_foreign`).
The first fault is therefore the failure, ahead of whatever else is wrong with the expression.
-/

namespace Keypad

open Text

namespace Lexeme

/-! ## Faultless texts -/

theorem reading_typed_sign {sign : Char} (typed : isTypedChar sign = true)
    (other : Decimal.isNumeralChar sign = false) (nonletter : sign.isAlpha = false) :
    ∃ lexemes, reading [sign] = .ok lexemes := by
  have signs : ∀ c ∈ ".+-*/^()".toList ++ "÷×−π".toList, Decimal.isNumeralChar c = false →
      (reading [c]).toBool = true := forall_mem_of_all (by decide +kernel)
  simp only [isTypedChar, isCanonicalChar, Canonical.isDigit_of_not_isNumeralChar other, nonletter,
    Bool.false_or, Bool.or_eq_true, List.contains_iff_mem] at typed
  have read := signs sign (List.mem_append.mpr typed) other
  cases found : reading [sign] with
  | ok lexemes => exact ⟨lexemes, rfl⟩
  | error failure =>
    rw [found] at read
    cases read

theorem reading_sound_run {run : Run Char} (alone : Run.split joins run.toList = [run])
    (sound : isSound isTypedChar run = true) : ∃ lexemes, reading run.toList = .ok lexemes := by
  have member : run ∈ Run.split joins run.toList := by
    rw [alone]
    exact List.mem_cons_self
  rw [isSound, Bool.and_eq_true, List.all_eq_true] at sound
  obtain ⟨typed, valid⟩ := sound
  cases numeral : Decimal.isNumeralChar run.first with
  | true =>
    rw [numeral, Bool.true_and, Bool.not_eq_true', decide_eq_false_iff_not] at valid
    have within := isNumeralChar_of_run member numeral
    obtain ⟨value, valued⟩ := exists_ofNumeral? within valid
    exact ⟨_, reading_numeral run.toList_ne_nil within valued⟩
  | false =>
    cases letter : run.first.isAlpha with
    | true => exact ⟨_, reading_word run.toList_ne_nil (isAlpha_of_run member letter)⟩
    | false =>
      rw [eq_of_sign_run alone numeral letter]
      exact reading_typed_sign (typed run.first List.mem_cons_self) numeral letter

theorem reading_of_faultless {text : List Char} (faultless : Faultless isTypedChar text) :
    ∃ lexemes, reading text = .ok lexemes := by
  rw [faultless_iff] at faultless
  induction text using Run.induction_on_split joins with
  | nil => exact ⟨[], rfl⟩
  | cons run later alone apart inductionHypothesis =>
    rw [Run.split_append_of_apart apart, alone, List.singleton_append, List.all_cons,
      Bool.and_eq_true] at faultless
    obtain ⟨lexemes, frontRead⟩ := reading_sound_run alone faultless.1
    obtain ⟨rest, backRead⟩ := inductionHypothesis faultless.2
    exact reading_append apart frontRead backRead

/-! ## Faults stay -/

theorem split_around_run {before after : List Char} {run : Run Char}
    (isRun : IsNumeralRun before run after) :
    ∃ star later, Run.split joins (Canonical.canonicalChars (before ++ run.toList ++ after)) =
      (Run.split joins (Canonical.canonicalChars before) ++
        Run.split joins (Canonical.sign star)) ++ run :: later := by
  have apart : ∀ last ∈ before.getLast?, ∀ next ∈ (run.toList ++ after).head?,
      joins last next = false := by
    intro last isLast next isNext
    cases isNext
    exact isRun.apart_left last isLast
  rw [List.append_assoc, split_canonicalChars_append apart,
    split_canonicalChars_append isRun.apart_right, Canonical.canonicalChars_numeral isRun.numeral,
    split_numeral isRun.numeral]
  exact ⟨_, _, rfl⟩

theorem ne_of_foreign {c other : Char} (foreign : isTypedChar c = false)
    (typed : isTypedChar other = true) : c ≠ other := by
  rintro rfl
  rw [foreign] at typed
  cases typed

theorem isOperandChar_of_foreign {c : Char} (foreign : isTypedChar c = false) :
    Canonical.isOperandChar c = false := by
  have point : c ≠ '.' := ne_of_foreign foreign rfl
  have isPi : c ≠ 'π' := ne_of_foreign foreign rfl
  simp only [isTypedChar, isCanonicalChar, Bool.or_eq_false_iff] at foreign
  simp only [Canonical.isOperandChar, Decimal.isNumeralChar, foreign.1.1.1, foreign.1.1.2,
    beq_eq_false_iff_ne.mpr point, beq_eq_false_iff_ne.mpr isPi, Bool.or_false]

theorem asciiSymbol_of_foreign {c : Char} (foreign : isTypedChar c = false) :
    Canonical.asciiSymbol c = c := by
  obtain ⟨rfl, -⟩ | ⟨rfl, -⟩ | ⟨rfl, -⟩ | same := Canonical.asciiSymbol_cases c
  · exact absurd rfl (ne_of_foreign foreign rfl)
  · exact absurd rfl (ne_of_foreign foreign rfl)
  · exact absurd rfl (ne_of_foreign foreign rfl)
  · exact same

theorem split_around_foreign {c : Char} (foreign : isTypedChar c = false)
    (before after : List Char) :
    ∃ later, Run.split joins (Canonical.canonicalChars (before ++ c :: after)) =
      Run.split joins (Canonical.canonicalChars before) ++ ⟨c, []⟩ :: later := by
  have apart := isOperandChar_of_foreign foreign
  obtain ⟨later, spelled⟩ := Canonical.head_canonicalChars apart after
  rw [asciiSymbol_of_foreign foreign] at spelled
  rw [Canonical.canonicalChars_append_sign apart, spelled, Run.split_append (joins_sign_right apart),
    Run.split_cons_of_apart (joins_sign_left apart)]
  exact ⟨_, rfl⟩

end Lexeme

namespace Evaluation

theorem scan_of_misread {text : String} {before after : List Char} {run : Run Char}
    (same : text.toList = before ++ run.toList ++ after) (isRun : IsNumeralRun before run after)
    (misread : Misread run) (faultless : Faultless isTypedChar before) :
    Token.scan (Canonical.ofText text) =
      .error (.invalidNumber (String.ofList run.toList)) := by
  obtain ⟨lexemes, read⟩ := Lexeme.reading_of_faultless faultless
  obtain ⟨star, later, cut⟩ := Lexeme.split_around_run isRun
  obtain ⟨signs, between⟩ := Lexeme.ofRuns_sign star
  rw [Token.scan, Canonical.ofText, String.toList_ofList, same, cut]
  apply Token.ofRuns_of_error
  · rw [Lexeme.ofRuns_append, between]
    rw [Lexeme.reading] at read
    rw [read]
    rfl
  · exact Lexeme.ofRun_misread misread isRun.numeral _

theorem scan_of_foreign {text : String} {before after : List Char} {c : Char}
    (same : text.toList = before ++ c :: after) (foreign : isTypedChar c = false)
    (faultless : Faultless isTypedChar before) :
    Token.scan (Canonical.ofText text) =
      .error (.invalidCharacter c (Canonical.ofText (String.ofList before)).utf8ByteSize) := by
  obtain ⟨lexemes, read⟩ := Lexeme.reading_of_faultless faultless
  obtain ⟨later, cut⟩ := Lexeme.split_around_foreign foreign before after
  rw [Token.scan, Canonical.ofText, String.toList_ofList, same, cut, Canonical.ofText,
    String.toList_ofList, Token.utf8ByteSize_ofList]
  apply Token.ofRuns_of_error read
  rw [Run.flatMap_toList_split, Nat.zero_add]
  exact Lexeme.ofRun_foreign (isCanonicalChar_eq_false_of_isTypedChar foreign) _

theorem exists_scan_iff (text : String) :
    (∃ tokens, Token.scan (Canonical.ofText text) = .ok tokens) ↔
      Faultless isTypedChar text.toList := by
  constructor
  · rintro ⟨tokens, scanned⟩
    have faults := faultless_or_first_fault
      (isTypedChar_of_isCanonicalChar ∘ isCanonicalChar_of_isNumeralChar)
      (isTypedChar_of_isCanonicalChar ∘ isCanonicalChar_of_isAlpha) text.toList
    obtain faultless | ⟨before, run, after, same, isRun, misread, front⟩ |
      ⟨before, c, after, same, foreign, front⟩ := faults
    · exact faultless
    · rw [scan_of_misread same isRun misread front] at scanned
      cases scanned
    · rw [scan_of_foreign same foreign front] at scanned
      cases scanned
  · intro faultless
    obtain ⟨lexemes, read⟩ := Lexeme.reading_of_faultless faultless
    rw [Token.scan, Canonical.ofText, String.toList_ofList]
    exact Token.exists_ofRuns read 0

/-- The first fault of a text is its failure, whatever else is wrong with the text. In front of it
    there is no other fault, and the canonical form of what stands there gives the position. A text
    without faults is cut into tokens, and no other text is. -/
theorem first_fault_decides (text : String) :
    (∀ before run after, text.toList = before ++ run.toList ++ after →
      IsNumeralRun before run after → Misread run → Faultless isTypedChar before →
      ofText text = .error (.invalidNumber (String.ofList run.toList))) ∧
    (∀ before c after, text.toList = before ++ c :: after → isTypedChar c = false →
      Faultless isTypedChar before →
      ofText text =
        .error (.invalidCharacter c (Canonical.ofText (String.ofList before)).utf8ByteSize)) ∧
    ((∃ tokens, Token.scan (Canonical.ofText text) = .ok tokens) ↔
      Faultless isTypedChar text.toList) := by
  refine ⟨?_, ?_, exists_scan_iff text⟩
  · intro before run after same isRun misread faultless
    rw [ofText, scan_of_misread same isRun misread faultless]
    rfl
  · intro before c after same foreign faultless
    rw [ofText, scan_of_foreign same foreign faultless]
    rfl

theorem first_fault_of_repeatedPoint :
    IsNumeralRun "2π)".toList ⟨'1', ".2.3".toList⟩ "(foo$".toList ∧
      Misread ⟨'1', ".2.3".toList⟩ ∧ Faultless isTypedChar "2π)".toList ∧
      ofText "2π)1.2.3(foo$" = .error (.invalidNumber "1.2.3") ∧
      isTypedChar '$' = false ∧ Faultless isTypedChar "(π2".toList ∧
      ofText "(π2$1..2" = .error (.invalidCharacter '$' 20) ∧
      Faultless isTypedChar "2π(foo".toList ∧
      ∃ tokens, Token.scan (Canonical.ofText "2π(foo") = .ok tokens := by
  have isRun : IsNumeralRun "2π)".toList ⟨'1', ".2.3".toList⟩ "(foo$".toList :=
    ⟨forall_mem_of_all (by decide), by rintro last ⟨⟩; rfl, by rintro next ⟨⟩; rfl⟩
  have misread : Misread ⟨'1', ".2.3".toList⟩ := .inr (by decide)
  have beforeRun : Faultless isTypedChar "2π)".toList := by decide
  have beforeSign : Faultless isTypedChar "(π2".toList := by decide
  have plain : Faultless isTypedChar "2π(foo".toList := by decide
  have position : (Canonical.ofText (String.ofList "(π2".toList)).utf8ByteSize = 20 := by decide
  refine ⟨isRun, misread, beforeRun, ?_, rfl, beforeSign, ?_, plain, ?_⟩
  · exact (first_fault_decides "2π)1.2.3(foo$").1 _ _ _ (by decide) isRun misread beforeRun
  · rw [← position]
    exact (first_fault_decides "(π2$1..2").2.1 _ _ "1..2".toList (by decide) rfl beforeSign
  · exact (first_fault_decides "2π(foo").2.2.mpr plain

end Evaluation

end Keypad
