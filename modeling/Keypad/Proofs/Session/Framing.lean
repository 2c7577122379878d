import Mathlib.Data.List.TakeWhile
import Keypad.Proofs.Session.ErrorFlag

/-!
# Lines of a session

A session prints one line for every line it reads, up to the first that is not UTF-8
(`ofRawLines_eq`). No display of a session has a line break in its text, so the lines can be
told apart again (`cutBehind_output`). What was read before counts through the display only: an input
that ends with a whole line can be followed by any other (`run_append`).
-/

namespace Keypad.Session

/-! ## Line by line -/

theorem ofRawLines_text {rawLine : List UInt8} (text : isText rawLine = true) (display : Display)
    (later : List (List UInt8)) :
    ofRawLines display (rawLine :: later) =
      let next := display.pressAll (pressed [rawLine])
      ⟨next :: (ofRawLines next later).displays, (ofRawLines next later).complete⟩ := by
  rw [← isSome_decode?, Option.isSome_iff_exists] at text
  obtain ⟨line, decoded⟩ := text
  simp only [ofRawLines, pressRawLine?_eq_some decoded, pressed, decoded, List.append_nil]
  rfl

theorem ofRawLines_unreadable {rawLine : List UInt8} (unreadable : isText rawLine = false)
    (display : Display) (later : List (List UInt8)) :
    ofRawLines display (rawLine :: later) = ⟨[], false⟩ := by
  rw [← isSome_decode?, Option.isSome_eq_false_iff, Option.isNone_iff_eq_none] at unreadable
  rw [ofRawLines, pressRawLine?_eq_none unreadable]

theorem pressed_text {rawLine : List UInt8} (text : isText rawLine = true)
    (later : List (List UInt8)) : pressed (rawLine :: later) = pressed [rawLine] ++ pressed later := by
  rw [← isSome_decode?, Option.isSome_iff_exists] at text
  obtain ⟨line, decoded⟩ := text
  simp only [pressed, decoded, List.append_nil]

section Texts

variable {front : List (List UInt8)} (texts : ∀ rawLine ∈ front, isText rawLine = true)
include texts

theorem pressed_append (later : List (List UInt8)) :
    pressed (front ++ later) = pressed front ++ pressed later := by
  induction front with
  | nil => rfl
  | cons rawLine front inductionHypothesis =>
    rw [List.forall_mem_cons] at texts
    rw [List.cons_append, pressed_text texts.1, pressed_text texts.1 front,
      inductionHypothesis texts.2, List.append_assoc]

theorem ofRawLines_append (display : Display) (later : List (List UInt8)) :
    ofRawLines display (front ++ later) =
      let rest := ofRawLines (display.pressAll (pressed front)) later
      ⟨(ofRawLines display front).displays ++ rest.displays, rest.complete⟩ := by
  induction front generalizing display with
  | nil => rfl
  | cons rawLine front inductionHypothesis =>
    rw [List.forall_mem_cons] at texts
    simp only [List.cons_append, ofRawLines_text texts.1, inductionHypothesis texts.2,
      pressed_text texts.1 front, Display.pressAll_append]

theorem ofRawLines_texts (display : Display) :
    (ofRawLines display front).displays.length = front.length ∧
      (ofRawLines display front).complete = true := by
  induction front generalizing display with
  | nil => exact ⟨rfl, rfl⟩
  | cons rawLine front inductionHypothesis =>
    rw [List.forall_mem_cons] at texts
    obtain ⟨count, complete⟩ :=
      inductionHypothesis texts.2 (display.pressAll (pressed [rawLine]))
    rw [ofRawLines_text texts.1]
    exact ⟨congrArg (· + 1) count, complete⟩

theorem getLast?_displays (nonempty : front ≠ []) (display : Display) :
    (ofRawLines display front).displays.getLast? = some (display.pressAll (pressed front)) := by
  obtain ⟨earlier, last, rfl⟩ := (List.eq_nil_or_concat front).resolve_left nonempty
  rw [List.concat_eq_append] at texts ⊢
  rw [List.forall_mem_append, List.forall_mem_singleton] at texts
  rw [ofRawLines_append texts.1, ofRawLines_text texts.2, pressed_append texts.1,
    Display.pressAll_append]
  exact List.getLast?_concat

end Texts

/-! ## Up to the first line that is no text -/

theorem isText_of_mem_takeWhile (rawLines : List (List UInt8)) :
    ∀ rawLine ∈ rawLines.takeWhile isText, isText rawLine = true :=
  fun _ => List.mem_takeWhile_imp

theorem ofRawLines_dropWhile (display : Display) (rawLines : List (List UInt8)) :
    ofRawLines display (rawLines.dropWhile isText) = ⟨[], rawLines.all isText⟩ := by
  induction rawLines with
  | nil => rfl
  | cons rawLine later inductionHypothesis =>
    cases text : isText rawLine with
    | true => simp [text, inductionHypothesis]
    | false => simp [text, ofRawLines_unreadable]

theorem ofRawLines_eq (display : Display) (rawLines : List (List UInt8)) :
    ofRawLines display rawLines =
      ⟨(ofRawLines display (rawLines.takeWhile isText)).displays, rawLines.all isText⟩ := by
  have divided := ofRawLines_append (isText_of_mem_takeWhile rawLines) display
    (rawLines.dropWhile isText)
  rw [List.takeWhile_append_dropWhile, ofRawLines_dropWhile] at divided
  simpa only [List.append_nil] using divided

/-! ## One input behind another -/

theorem isText_of_mem_rawLines {input : List UInt8} (text : isText input = true) :
    ∀ rawLine ∈ rawLines input, isText rawLine = true := by
  obtain ⟨text, rfl⟩ := isText_iff.mp text
  intro rawLine member
  rw [rawLines_encode] at member
  obtain ⟨line, -, rfl⟩ := List.mem_map.mp member
  exact isText_iff.mpr ⟨line, rfl⟩

theorem rawLines_append {input : List UInt8} (ended : input.getLast? = some newline)
    (later : List UInt8) : rawLines (input ++ later) = rawLines input ++ rawLines later := by
  obtain ⟨front, rfl⟩ := List.getLast?_eq_some_iff.mp ended
  rw [List.append_assoc]
  exact Text.cutBehind_append_end rfl front later

theorem rawLines_ne_nil {input : List UInt8} (nonempty : input ≠ []) : rawLines input ≠ [] := by
  rw [rawLines, Run.map_toList_split]
  exact List.splitBy_ne_nil.mpr nonempty

theorem run_append {input : List UInt8} (text : isText input = true)
    (ended : input.getLast? = some newline) (display : Display) (later : List UInt8) :
    ∃ reached, (run display input).displays.getLast? = some reached ∧
      run display (input ++ later) =
        ⟨(run display input).displays ++ (run reached later).displays,
          (run reached later).complete⟩ := by
  have texts := isText_of_mem_rawLines text
  have nonempty : input ≠ [] := by
    rintro rfl
    cases ended
  refine ⟨_, getLast?_displays texts (rawLines_ne_nil nonempty) display, ?_⟩
  rw [run, rawLines_append ended, ofRawLines_append texts]
  rfl

/-! ## What is printed -/

theorem output_append {front later whole : Transcript}
    (shown : whole.displays = front.displays ++ later.displays) (format : Report.Format) :
    whole.output format = front.output format ++ later.output format := by
  simp only [Transcript.output, shown, Report.ofLines, List.map_append, String.join_append]

theorem cutBehind_output {format : Report.Format} {transcript : Transcript}
    (spaced : ∀ shown ∈ transcript.displays, shown.Spaced) :
    Text.cutBehind (· == '\n') (transcript.output format).toList =
      transcript.displays.map fun shown => (Report.ofDisplay format shown).toList ++ ['\n'] := by
  rw [Transcript.output, Text.cutBehind_ofLines, List.map_map]
  · rfl
  · intro line member
    obtain ⟨shown, inside, rfl⟩ := List.mem_map.mp member
    exact unbroken_ofDisplay (spaced shown inside) format

theorem readObject?_lines_output {transcript : Transcript}
    (spaced : ∀ shown ∈ transcript.displays, shown.Spaced) :
    (Text.lines (transcript.output .json).toList).map
        (fun line => Json.readObject? (String.ofList line)) =
      transcript.displays.map fun shown =>
        some [("display", .text shown.text), ("error", .truth shown.showsError)] := by
  rw [lines_output fun shown member => unbroken_ofDisplay (spaced shown member) .json,
    List.map_map]
  apply List.map_congr_left
  intro shown _
  rw [Function.comp_apply, String.ofList_toList, Report.ofDisplay, Json.readObject?_writeObject]

/-- A session prints one line for every line of its input that comes before the first one that is not
    UTF-8, and reads to the end if there is none. Behind a whole line it goes on like a session from
    the display that was shown last. Every line of JSON has the text of the plain line and the error
    flag of the display. -/
theorem output_framed (input : List UInt8) :
    (run .empty input).displays =
        (ofRawLines .empty ((rawLines input).takeWhile isText)).displays ∧
      (run .empty input).displays.length = ((rawLines input).takeWhile isText).length ∧
      ((run .empty input).complete = false ↔
        ∃ rawLine ∈ rawLines input, isText rawLine = false) ∧
      (∀ format, Text.cutBehind (· == '\n') ((run .empty input).output format).toList =
        (run .empty input).displays.map fun shown =>
          (Report.ofDisplay format shown).toList ++ ['\n']) ∧
      (isText input = true → input.getLast? = some newline → ∀ later,
        ∃ reached, (run .empty input).displays.getLast? = some reached ∧
          (run .empty (input ++ later)).complete = (run reached later).complete ∧
          ∀ format, (run .empty (input ++ later)).output format =
            (run .empty input).output format ++ (run reached later).output format) ∧
      Text.lines ((run .empty input).output .plain).toList =
        (run .empty input).displays.map (fun shown => shown.text.toList) ∧
      (Text.lines ((run .empty input).output .json).toList).map
          (fun line => Json.readObject? (String.ofList line)) =
        (run .empty input).displays.map fun shown =>
          some [("display", .text shown.text), ("error", .truth shown.showsError)] := by
  have spaced : ∀ shown ∈ (run .empty input).displays, shown.Spaced := fun _ => spaced_of_shown
  have stopped := ofRawLines_eq .empty (rawLines input)
  have displays := congrArg Transcript.displays stopped
  refine ⟨displays, ?_, ?_, fun format => cutBehind_output spaced, ?_,
    lines_output fun shown member => unbroken_ofDisplay (spaced shown member) .plain,
    readObject?_lines_output spaced⟩
  · exact (congrArg List.length displays).trans
      (ofRawLines_texts (isText_of_mem_takeWhile _) _).1
  · rw [run, stopped, List.all_eq_false]
    simp
  · intro text ended later
    obtain ⟨reached, shown, continued⟩ := run_append text ended .empty later
    refine ⟨reached, shown, ?_, output_append ?_⟩
    · rw [continued]
    · rw [continued]

/-- The input stops in an error, and what comes behind it has a byte that is no text. -/
theorem output_framed_of_unreadable :
    let input := "5÷0=\r\n".toUTF8.data.toList
    let later := "7\n".toUTF8.data.toList ++ [0xFF, 0x0A, 0x37]
    isText input = true ∧ input.getLast? = some newline ∧
      ∃ reached, (run .empty input).displays.getLast? = some reached ∧
        (run .empty (input ++ later)).complete = (run reached later).complete ∧
        ∀ format, (run .empty (input ++ later)).output format =
          (run .empty input).output format ++ (run reached later).output format := by
  intro input later
  have text : isText input = true := by decide +kernel
  have ended : input.getLast? = some newline := by decide +kernel
  exact ⟨text, ended, (output_framed input).2.2.2.2.1 text ended later⟩

end Keypad.Session
