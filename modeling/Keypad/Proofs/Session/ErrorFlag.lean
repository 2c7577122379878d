import Keypad.Json.Reader
import Keypad.Proofs.Display.ErrorFlag
import Keypad.Proofs.Json.Printable
import Keypad.Proofs.Session.Typing

/-!
# Errors in a session

A session types no blanks, because blanks separate its words. So the display shows an error message
exactly when its text has a blank, after every key (`error_iff_blank`).
-/

namespace Keypad

/-- Whether a line of a report says that the display shows an error message. -/
def Report.saysError (line : List Char) : Bool :=
  (Json.readObject? (String.ofList line)).any fun fields =>
    decide (("error", Json.Value.truth true) ∈ fields)

theorem Report.saysError_ofDisplay (display : Display) :
    Report.saysError (Report.ofDisplay .json display).toList = display.showsError := by
  rw [saysError, String.ofList_toList, ofDisplay, Json.readObject?_writeObject]
  cases display.showsError <;> simp

namespace Session

/-- The keys of a session, up to the first line that is not UTF-8. -/
def pressed : List (List UInt8) → List Key
  | [] => []
  | rawLine :: later =>
    match decode? rawLine with
    | none => []
    | some line => lineKeys line ++ pressed later

theorem typed_wordKeys {word : List Char} {key : Key} (member : key ∈ wordKeys word) :
    ∀ c ∈ key.typed, c ∈ word := by
  intro c typed
  rw [wordKeys] at member
  split at member
  next text found =>
    obtain ⟨other, inside, rfl⟩ := List.mem_map.mp member
    have same := Key.typed_ofLabel _ c typed
    rw [Char.toString, String.toList_singleton, List.mem_singleton] at same
    rw [same]
    exact inside
  next control =>
    cases List.mem_singleton.mp member
    rw [← String.toList_ofList (l := word)]
    exact Key.typed_ofLabel _ c typed

theorem typed_lineKeys {line : String} {key : Key} (member : key ∈ lineKeys line) :
    ∀ c ∈ key.typed, Text.isBlank c = false := by
  intro c typed
  obtain ⟨word, found, inside⟩ := List.mem_flatMap.mp member
  have kept := List.mem_flatten_of_mem found (typed_wordKeys inside c typed)
  rw [Text.flatten_words] at kept
  exact Text.isBlank_of_mem_nonblank kept

theorem typed_pressed {rawLines : List (List UInt8)} {key : Key} (member : key ∈ pressed rawLines) :
    ∀ c ∈ key.typed, Text.isBlank c = false := by
  induction rawLines with
  | nil => cases member
  | cons rawLine later inductionHypothesis =>
    rw [pressed] at member
    split at member
    · cases member
    · obtain here | behind := List.mem_append.mp member
      · exact typed_lineKeys here
      · exact inductionHypothesis behind

/-- What is shown after a line is the display after some of the keys. -/
theorem exists_pressed_of_shown {display shown : Display} {rawLines : List (List UInt8)}
    (member : shown ∈ (ofRawLines display rawLines).displays) :
    ∃ keys, keys <+: pressed rawLines ∧ shown = display.pressAll keys := by
  induction rawLines generalizing display with
  | nil => cases member
  | cons rawLine later inductionHypothesis =>
    cases decoded : decode? rawLine with
    | none =>
      rw [ofRawLines, pressRawLine?_eq_none decoded] at member
      cases member
    | some line =>
      rw [ofRawLines, pressRawLine?_eq_some decoded] at member
      rw [pressed, decoded]
      obtain rfl | behind := List.mem_cons.mp member
      · exact ⟨lineKeys line, List.prefix_append _ _, rfl⟩
      · obtain ⟨keys, start, rfl⟩ := inductionHypothesis behind
        refine ⟨lineKeys line ++ keys, (List.prefix_append_right_inj _).mpr start, ?_⟩
        rw [Display.pressAll_append]
        rfl

theorem spaced_pressed {rawLines : List (List UInt8)} {keys : List Key}
    (start : keys <+: pressed rawLines) : (Display.empty.pressAll keys).Spaced :=
  Display.spaced_pressAll Display.spaced_empty fun _ member => typed_pressed (start.subset member)

theorem spaced_of_shown {rawLines : List (List UInt8)} {shown : Display}
    (member : shown ∈ (ofRawLines .empty rawLines).displays) : shown.Spaced := by
  obtain ⟨keys, start, rfl⟩ := exists_pressed_of_shown member
  exact spaced_pressed start

/-! ## What is printed -/

theorem lines_output {format : Report.Format} {transcript : Transcript}
    (unbroken : ∀ shown ∈ transcript.displays, '\n' ∉ (Report.ofDisplay format shown).toList) :
    Text.lines (transcript.output format).toList =
      transcript.displays.map fun shown => (Report.ofDisplay format shown).toList := by
  rw [Transcript.output, Text.lines_ofLines, List.map_map]
  · rfl
  · intro line member
    obtain ⟨shown, inside, rfl⟩ := List.mem_map.mp member
    exact unbroken shown inside

theorem unbroken_ofDisplay {shown : Display} (spaced : shown.Spaced) (format : Report.Format) :
    '\n' ∉ (Report.ofDisplay format shown).toList := by
  cases format with
  | plain => exact spaced.newline_not_mem
  | json =>
    intro member
    exact absurd (Json.printable_writeObject _ _ member) (by decide)

theorem map_contains_lines_output {transcript : Transcript}
    (spaced : ∀ shown ∈ transcript.displays, shown.Spaced) :
    (Text.lines (transcript.output .plain).toList).map (fun line => line.contains ' ') =
      (Text.lines (transcript.output .json).toList).map Report.saysError := by
  have unbroken (format : Report.Format) :
      ∀ shown ∈ transcript.displays, '\n' ∉ (Report.ofDisplay format shown).toList :=
    fun shown member => unbroken_ofDisplay (spaced shown member) format
  rw [lines_output (unbroken .plain), lines_output (unbroken .json), List.map_map, List.map_map]
  apply List.map_congr_left
  intro shown member
  rw [Function.comp_apply, Function.comp_apply, Report.saysError_ofDisplay]
  exact (spaced shown member).contains_space

/-- After every key the display shows an error message exactly if its text has a blank. What is
    calculated then has nothing of an error message in it and no blanks to complain about, and the
    lines with a space are those that say in JSON that there is an error. -/
theorem error_iff_blank (input : List UInt8) :
    (∀ keys, keys <+: pressed (rawLines input) →
      ((Display.empty.pressAll keys).showsError = true ↔
        ∃ c ∈ (Display.empty.pressAll keys).text.toList, Text.isBlank c = true) ∧
      ((Display.empty.pressAll keys).showsError = false →
        (∃ before recent, keys = before ++ recent ∧
          Display.empty.pressAll keys = Display.empty.pressAll recent ∧
          ∀ earlier, earlier <+: recent →
            (Display.empty.pressAll earlier).showsError = false) ∧
        ∀ c position, Evaluation.ofText (Display.empty.pressAll keys).text =
          .error (.invalidCharacter c position) → Text.isBlank c = false)) ∧
    (∀ shown ∈ (run .empty input).displays,
      ∃ keys, keys <+: pressed (rawLines input) ∧ shown = Display.empty.pressAll keys) ∧
    (Text.lines ((run .empty input).output .plain).toList).map (fun line => line.contains ' ') =
      (Text.lines ((run .empty input).output .json).toList).map Report.saysError := by
  refine ⟨fun keys start => ?_, fun shown => exists_pressed_of_shown,
    map_contains_lines_output fun shown => spaced_of_shown⟩
  have spaced := spaced_pressed start
  refine ⟨spaced.showsError_iff, fun gone => ⟨Display.exists_recent keys gone, ?_⟩⟩
  intro c position failed
  exact Evaluation.quoted_not_blank (spaced.plain gone) failed c (List.mem_singleton_self c)

/-- The message about the division is typed over. -/
theorem error_iff_blank_of_typedOver :
    let input := "5÷0=\n7$\n".toUTF8.data.toList
    let keys := [.input "5", .input "÷", .input "0", .calculate, .input "7", .input "$"]
    keys <+: pressed (rawLines input) ∧ (Display.empty.pressAll keys).showsError = false ∧
      (∃ before recent, keys = before ++ recent ∧
        Display.empty.pressAll keys = Display.empty.pressAll recent ∧
        ∀ earlier, earlier <+: recent → (Display.empty.pressAll earlier).showsError = false) ∧
      Evaluation.ofText (Display.empty.pressAll keys).text = .error (.invalidCharacter '$' 1) ∧
      Text.isBlank '$' = false := by
  intro input keys
  have whole : pressed (rawLines input) = keys := by decide +kernel
  have shown : Display.empty.pressAll keys = ⟨"7$", false⟩ := by decide +kernel
  have failed : Evaluation.ofText "7$" = .error (.invalidCharacter '$' 1) := by decide +kernel
  have start : keys <+: pressed (rawLines input) := whole ▸ List.prefix_refl keys
  have gone : (Display.empty.pressAll keys).showsError = false := by rw [shown]
  have refused : Evaluation.ofText (Display.empty.pressAll keys).text =
      .error (.invalidCharacter '$' 1) := by
    rw [shown]
    exact failed
  have known := (((error_iff_blank input).1 keys start).2 gone)
  exact ⟨start, gone, known.1, refused, known.2 '$' 1 refused⟩

end Session

end Keypad
