import Keypad.Display
import Keypad.Proofs.Evaluation.Characters
import Keypad.Proofs.Number.ReadBack
import Mathlib.Data.List.Induction

/-!
# The error flag

Every message has a space in it, and no result has a blank. So on a display on which no blanks are
typed the texts with blanks are the error messages (`spaced_pressAll`), and nothing of a message is
left on the display after it (`exists_recent`).
-/

namespace Keypad

/-! ## Results and messages -/

theorem Text.isBlank_of_isOperandChar {c : Char} (operand : Canonical.isOperandChar c = true) :
    Text.isBlank c = false := by
  have foreign : ∀ other ∈ Text.blanks, Canonical.isOperandChar other = false :=
    Text.forall_mem_of_all (by decide)
  cases blank : Text.isBlank c with
  | false => rfl
  | true =>
    rw [foreign c (List.contains_iff_mem.mp blank)] at operand
    cases operand

theorem Text.isBlank_of_isNumeralChar {c : Char} (numeral : Decimal.isNumeralChar c = true) :
    Text.isBlank c = false := by
  apply isBlank_of_isOperandChar
  rw [Canonical.isOperandChar, numeral]
  rfl

namespace Number.Style

variable {style : Number.Style}

theorem isBlank_of_mem_writeMagnitude
    (infinity : ∀ c ∈ style.infinity.toList, Text.isBlank c = false) (magnitude : Nat) :
    ∀ c ∈ (style.writeMagnitude magnitude).toList, Text.isBlank c = false := by
  rw [writeMagnitude]
  split
  · exact infinity
  · intro c member
    rw [String.toList_ofList] at member
    exact Text.isBlank_of_isNumeralChar (Decimal.isNumeralChar_of_mem_numeral member)

theorem isBlank_of_mem_write (infinity : ∀ c ∈ style.infinity.toList, Text.isBlank c = false)
    (negativeZero : ∀ c ∈ style.negativeZero.toList, Text.isBlank c = false) (number : Float) :
    ∀ c ∈ (style.write number).toList, Text.isBlank c = false := by
  have magnitude := isBlank_of_mem_writeMagnitude infinity (Binary64.ofFloat number)
  rw [write]
  split
  · exact Text.forall_mem_of_all (by decide)
  · split
    · split
      · exact negativeZero
      · rw [String.toList_append, List.forall_mem_append]
        exact ⟨Text.forall_mem_of_all (by decide), magnitude⟩
    · exact magnitude

end Number.Style

namespace Failure

theorem space_mem_message (failure : Failure) : ' ' ∈ failure.message.toList := by
  have leading {front : String} (spaced : ' ' ∈ front.toList) (rest : String) :
      ' ' ∈ (front ++ rest).toList := by
    rw [String.toList_append]
    exact List.mem_append_left _ spaced
  cases failure with
  | invalidCharacter c n => exact show ' ' ∈ "Invalid character detected".toList by decide
  | unmatchedRightParen => exact leading (by decide) _
  | unclosedLeftParen => exact leading (by decide) _
  | invalidNumber => exact leading (leading (by decide) _) _
  | unknownFunction => exact leading (leading (by decide) _) _
  | divisionByZero => decide
  | domainError => exact leading (leading (leading (by decide) _) _) _
  | malformedExpression => decide

/-- A message that repeats no blank has none but spaces. -/
theorem isBlank_of_mem_message {failure : Failure}
    (repeated : ∀ c ∈ failure.repeated, Text.isBlank c = false) :
    ∀ c ∈ failure.message.toList, c = ' ' ∨ Text.isBlank c = false := by
  have literal {text : String}
      (checked : text.toList.all (fun c => decide (c = ' ' ∨ Text.isBlank c = false)) = true) :
      ∀ c ∈ text.toList, c = ' ' ∨ Text.isBlank c = false :=
    Text.forall_mem_of_all checked
  have append {front rest : String} (left : ∀ c ∈ front.toList, c = ' ' ∨ Text.isBlank c = false)
      (right : ∀ c ∈ rest.toList, c = ' ' ∨ Text.isBlank c = false) :
      ∀ c ∈ (front ++ rest).toList, c = ' ' ∨ Text.isBlank c = false := by
    rw [String.toList_append, List.forall_mem_append]
    exact ⟨left, right⟩
  have position (n : Nat) : ∀ c ∈ n.repr.toList, c = ' ' ∨ Text.isBlank c = false := by
    intro c member
    rw [Nat.toList_repr] at member
    exact .inr (Text.isBlank_of_isNumeralChar
      (Decimal.isNumeralChar_of_isDigit (Decimal.isDigit_of_mem_toDigits member)))
  cases failure with
  | invalidCharacter c n =>
    exact show ∀ c ∈ "Invalid character detected".toList, _ from literal (by decide)
  | unmatchedRightParen n => exact append (literal (by decide)) (position n)
  | unclosedLeftParen n => exact append (literal (by decide)) (position n)
  | invalidNumber numeral =>
    exact append (append (literal (by decide)) fun c member => .inr (repeated c member))
      (literal (by decide))
  | unknownFunction name =>
    exact append (append (literal (by decide)) fun c member => .inr (repeated c member))
      (literal (by decide))
  | divisionByZero => exact literal (by decide)
  | domainError function argument =>
    have named : ∀ c ∈ function.name.toList, c = ' ' ∨ Text.isBlank c = false := by
      cases function <;> exact literal (by decide)
    have listed : ∀ c ∈ (Number.Style.listing.write argument).toList, Text.isBlank c = false :=
      Number.Style.isBlank_of_mem_write (Text.forall_mem_of_all (by decide))
        (Text.forall_mem_of_all (by decide)) argument
    exact append (append (append (literal (by decide)) named) (literal (by decide)))
      fun c member => .inr (listed c member)
  | malformedExpression => exact literal (by decide)

end Failure

/-! ## Keys -/

namespace Key

/-- What a key types. -/
def typed : Key → List Char
  | input text => text.toList
  | _ => []

theorem typed_ofLabel (label : String) : ∀ c ∈ (ofLabel label).typed, c ∈ label.toList := by
  intro c member
  rw [ofLabel] at member
  split at member
  · cases member
  · split at member
    · cases member
    · split at member
      · cases member
      · exact member

end Key

namespace Display

/-- Error messages have a space and no other blanks, and any other text has no blanks at all. -/
structure Spaced (display : Display) : Prop where
  message : display.showsError = true →
    ' ' ∈ display.text.toList ∧ ∀ c ∈ display.text.toList, c = ' ' ∨ Text.isBlank c = false
  plain : display.showsError = false → ∀ c ∈ display.text.toList, Text.isBlank c = false

theorem spaced_plain {text : String} (plain : ∀ c ∈ text.toList, Text.isBlank c = false) :
    Spaced ⟨text, false⟩ where
  message shown := by cases shown
  plain _ := plain

theorem spaced_empty : empty.Spaced :=
  spaced_plain fun c member => by cases member

namespace Spaced

variable {display : Display}

theorem showsError_iff (spaced : display.Spaced) :
    display.showsError = true ↔ ∃ c ∈ display.text.toList, Text.isBlank c = true := by
  constructor
  · intro shown
    exact ⟨' ', (spaced.message shown).1, by decide⟩
  · rintro ⟨c, member, blank⟩
    cases shown : display.showsError with
    | true => rfl
    | false =>
      rw [spaced.plain shown c member] at blank
      cases blank

theorem contains_space (spaced : display.Spaced) :
    display.text.toList.contains ' ' = display.showsError := by
  rw [Bool.eq_iff_iff, List.contains_iff_mem, spaced.showsError_iff]
  constructor
  · intro member
    exact ⟨' ', member, by decide⟩
  · intro blank
    exact (spaced.message (spaced.showsError_iff.mpr blank)).1

theorem newline_not_mem (spaced : display.Spaced) : '\n' ∉ display.text.toList := by
  intro member
  cases shown : display.showsError with
  | true => exact absurd ((spaced.message shown).2 _ member) (by decide)
  | false => exact absurd (spaced.plain shown _ member) (by decide)

theorem ofOutcome_shown (text : String) : (ofOutcome (Evaluation.shown text)).Spaced := by
  rw [Evaluation.shown]
  cases valued : Evaluation.ofText text with
  | ok value =>
    exact spaced_plain (Number.Style.isBlank_of_mem_write (Text.forall_mem_of_all (by decide))
      (Text.forall_mem_of_all (by decide)) value)
  | error failure =>
    have repeated : ∀ c ∈ failure.repeated, Text.isBlank c = false := fun c member =>
      Text.isBlank_of_isOperandChar (Evaluation.isOperandChar_of_repeated valued c member)
    exact {
      message := fun _ => ⟨failure.space_mem_message, failure.isBlank_of_mem_message repeated⟩
      plain := fun shown => by cases shown }

theorem press (spaced : display.Spaced) {key : Key}
    (plain : ∀ c ∈ key.typed, Text.isBlank c = false) : (display.press key).Spaced := by
  obtain ⟨text, showsError⟩ := display
  cases showsError with
  | true =>
    cases key with
    | input typed => exact spaced_plain plain
    | clear => exact spaced_empty
    | backspace => exact spaced_empty
    | calculate => exact spaced
  | false =>
    have kept := spaced.plain rfl
    cases key with
    | input typed =>
      refine spaced_plain ?_
      rw [String.toList_append, List.forall_mem_append]
      exact ⟨kept, plain⟩
    | clear => exact spaced_empty
    | backspace =>
      refine spaced_plain fun c member => kept c ?_
      rw [String.toList_ofList] at member
      exact List.dropLast_subset _ member
    | calculate =>
      rw [Display.press, calculate, outcome_plain]
      exact ofOutcome_shown text

end Spaced

theorem spaced_pressAll {display : Display} (spaced : display.Spaced) {keys : List Key}
    (plain : ∀ key ∈ keys, ∀ c ∈ key.typed, Text.isBlank c = false) :
    (display.pressAll keys).Spaced := by
  induction keys generalizing display with
  | nil => exact spaced
  | cons key keys inductionHypothesis =>
    apply inductionHypothesis (spaced.press (plain key List.mem_cons_self))
    exact fun other member => plain other (List.mem_cons_of_mem _ member)

/-! ## After an error -/

/-- A key that takes an error message away does what it does on the empty display. -/
theorem press_of_showsError {display : Display} (shown : display.showsError = true) {key : Key}
    (gone : (display.press key).showsError = false) : display.press key = empty.press key := by
  obtain ⟨message, showsError⟩ := display
  cases shown
  cases key with
  | input text =>
    change (⟨text, false⟩ : Display) = ⟨"" ++ text, false⟩
    rw [String.empty_append]
  | clear => rfl
  | backspace => rfl
  | calculate => cases gone

/-- A display without an error message is one that was reached from the empty display without
    any. -/
theorem exists_recent (keys : List Key) (gone : (empty.pressAll keys).showsError = false) :
    ∃ before recent, keys = before ++ recent ∧ empty.pressAll keys = empty.pressAll recent ∧
      ∀ earlier, earlier <+: recent → (empty.pressAll earlier).showsError = false := by
  induction keys using List.reverseRecOn with
  | nil =>
    refine ⟨[], [], rfl, rfl, fun earlier start => ?_⟩
    rw [List.prefix_nil.mp start]
    rfl
  | append_singleton keys key inductionHypothesis =>
    rw [pressAll_append] at gone ⊢
    cases shown : (empty.pressAll keys).showsError with
    | true =>
      have reset : (empty.pressAll keys).pressAll [key] = empty.pressAll [key] :=
        press_of_showsError shown gone
      refine ⟨keys, [key], rfl, reset, fun earlier start => ?_⟩
      obtain whole | none := List.prefix_concat_iff.mp (show earlier <+: [] ++ [key] from start)
      · rw [whole, List.nil_append, ← reset]
        exact gone
      · rw [List.prefix_nil.mp none]
        rfl
    | false =>
      obtain ⟨before, recent, rfl, same, errorless⟩ := inductionHypothesis shown
      refine ⟨before, recent ++ [key], List.append_assoc _ _ _, ?_, fun earlier start => ?_⟩
      · rw [same, pressAll_append]
      · obtain whole | start := List.prefix_concat_iff.mp start
        · rw [whole, pressAll_append, ← same]
          exact gone
        · exact errorless earlier start

end Display

end Keypad
