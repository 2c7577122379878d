import Keypad.Proofs.Session.Encoding

/-!
# What is typed in a session

A session shows what comes of pressing, one by one, the characters of its lines that are not blank
(`run_eq_typed`). The keys are not always the same: a word that is a label is one key, and typed
character by character it may be several. But whatever the display, both leave it in the same state
(`pressAll_wordKeys`).
-/

namespace Keypad.Session

/-- The only label of more than one character clears the display, and so does its last
    character. -/
theorem pressAll_wordKeys (display : Display) (word : List Char) :
    display.pressAll (wordKeys word) = display.pressAll (word.map Key.ofChar) := by
  have spelled {label : String} (same : String.ofList word = label) : word = label.toList := by
    rw [← same, String.toList_ofList]
  rw [wordKeys, Key.ofLabel]
  by_cases clears : String.ofList word = "C" ∨ String.ofList word = "AC"
  · rw [if_pos clears]
    obtain same | same := clears <;> cases spelled same <;> rfl
  · rw [if_neg clears]
    by_cases erases : String.ofList word = "⌫" ∨ String.ofList word = "<"
    · rw [if_pos erases]
      obtain same | same := erases <;> cases spelled same <;> rfl
    · rw [if_neg erases]
      by_cases calculates : String.ofList word = "="
      · rw [if_pos calculates]
        cases spelled calculates
        rfl
      · rw [if_neg calculates]

theorem pressAll_lineKeys (display : Display) (line : String) :
    display.pressAll (lineKeys line) =
      display.pressAll ((Text.nonblank line.toList).map Key.ofChar) := by
  rw [lineKeys, ← Text.flatten_words]
  induction Text.words line.toList generalizing display with
  | nil => rfl
  | cons word words inductionHypothesis =>
    rw [List.flatMap_cons, List.flatten_cons, List.map_append, Display.pressAll_append,
      Display.pressAll_append, pressAll_wordKeys, inductionHypothesis]

theorem ofRawLines_cons (display : Display) (line : List Char) (later : List (List UInt8)) :
    ofRawLines display (encode line :: later) =
      let next := display.pressAll ((Text.nonblank line).map Key.ofChar)
      ⟨next :: (ofRawLines next later).displays, (ofRawLines next later).complete⟩ := by
  obtain ⟨decoded, found, kept⟩ := decode?_encode line
  rw [ofRawLines, pressRawLine?_eq_some found]
  simp only [pressLine, pressAll_lineKeys, kept]

/-- A session over encoded lines shows the display after every line. -/
theorem ofRawLines_encode (display : Display) (lines : List (List Char)) :
    ofRawLines display (lines.map encode) =
      ⟨(List.range lines.length).map fun i =>
        display.pressAll (((lines.map Text.nonblank).take (i + 1)).flatten.map Key.ofChar),
        true⟩ := by
  induction lines generalizing display with
  | nil => rfl
  | cons line lines inductionHypothesis =>
    rw [List.map_cons, ofRawLines_cons]
    simp only [inductionHypothesis, List.length_cons, List.range_succ_eq_map, List.map_cons,
      List.map_map, Function.comp_def, List.take_succ_cons, List.flatten_cons, List.map_append,
      Display.pressAll_append, List.take_zero, List.flatten_nil, List.map_nil,
      Display.pressAll_nil]

theorem nonblank_lines (text : List Char) :
    (Text.lines text).map Text.nonblank =
      (Text.cutBehind (· == '\n') text).map Text.nonblank := by
  rw [Text.lines, List.map_map]
  apply List.map_congr_left
  intro line _
  simp only [Function.comp_apply, Text.nonblank, List.filter_filter]
  apply List.filter_congr
  intro c _
  by_cases ended : c = '\n'
  · rw [ended]
    rfl
  · rw [bne_iff_ne.mpr ended, Bool.and_true]

theorem run_encode (display : Display) (text : String) :
    run display text.toUTF8.data.toList =
      ⟨(List.range (Text.lines text.toList).length).map fun i =>
        display.pressAll
          ((((Text.lines text.toList).map Text.nonblank).take (i + 1)).flatten.map Key.ofChar),
        true⟩ := by
  have count : (Text.cutBehind (· == '\n') text.toList).length =
      (Text.lines text.toList).length := (List.length_map _).symm
  rw [run, toUTF8_eq_encode, rawLines_encode, ofRawLines_encode, nonblank_lines, count]

/-- After every line the display shows what comes of pressing the characters so far that are not
    blank, one by one. So texts whose lines differ in nothing but blanks print the same. -/
theorem run_eq_typed (text : String) :
    run .empty text.toUTF8.data.toList =
      ⟨(List.range (Text.lines text.toList).length).map fun i =>
        Display.empty.pressAll
          ((Text.nonblank ((Text.lines text.toList).take (i + 1)).flatten).map Key.ofChar),
        true⟩ ∧
    ∀ other : String,
      (Text.lines other.toList).map Text.nonblank = (Text.lines text.toList).map Text.nonblank →
        ∀ format, (run .empty other.toUTF8.data.toList).output format =
          (run .empty text.toUTF8.data.toList).output format := by
  constructor
  · rw [run_encode]
    simp only [Text.nonblank_flatten, List.map_take]
  · intro other same format
    have count := congrArg List.length same
    rw [List.length_map, List.length_map] at count
    rw [run_encode, run_encode, same, count]

/-- Clearing is one key in the first text, and two in the other. -/
theorem run_eq_typed_of_spacedLabel :
    (Text.lines "9*9 AC\n12 ⌫ +3 =\n".toList).map Text.nonblank =
        (Text.lines "9 *9A C\r\n12⌫+3=".toList).map Text.nonblank ∧
      ∀ format, (run .empty "9*9 AC\n12 ⌫ +3 =\n".toUTF8.data.toList).output format =
        (run .empty "9 *9A C\r\n12⌫+3=".toUTF8.data.toList).output format := by
  have same : (Text.lines "9*9 AC\n12 ⌫ +3 =\n".toList).map Text.nonblank =
      (Text.lines "9 *9A C\r\n12⌫+3=".toList).map Text.nonblank := by decide
  exact ⟨same, (run_eq_typed "9 *9A C\r\n12⌫+3=").2 "9*9 AC\n12 ⌫ +3 =\n" same⟩

end Keypad.Session
