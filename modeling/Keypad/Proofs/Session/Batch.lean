import Keypad.Proofs.Display.Erasure
import Keypad.Proofs.Evaluation.Characters
import Keypad.Proofs.Session.Typing

/-!
# Sessions and batches

Clearing the display, typing a text and calculating shows what evaluating the text shows, from
whatever display (`pressAll_enclose`). This needs that the text can be typed as it stands: that it
has no blanks, which separate words, and no labels of control keys. Texts that have a value are of
this kind.
-/

namespace Keypad

/-- The characters that are labels of control keys. -/
def Key.controls : List Char :=
  ['C', '<', '⌫', '=']

theorem Key.ofChar_eq_input {c : Char} (plain : c ∉ Key.controls) :
    Key.ofChar c = .input c.toString := by
  have spelled {label : String} (same : c.toString = label) : [c] = label.toList := by
    rw [← same, Char.toString, String.toList_singleton]
  have other {label : String} {control : Char} (labelled : label.toList = [control])
      (member : control ∈ Key.controls) : c.toString ≠ label := by
    intro same
    have typed := (spelled same).trans labelled
    rw [List.singleton_inj] at typed
    rw [typed] at plain
    exact plain member
  have clear : ¬ (c.toString = "C" ∨ c.toString = "AC") := by
    rintro (same | same)
    · exact other (show "C".toList = ['C'] from rfl) (by decide) same
    · cases spelled same
  have erase : ¬ (c.toString = "⌫" ∨ c.toString = "<") := by
    rintro (same | same)
    · exact other (show "⌫".toList = ['⌫'] from rfl) (by decide) same
    · exact other (show "<".toList = ['<'] from rfl) (by decide) same
  have equals : c.toString ≠ "=" := other (show "=".toList = ['='] from rfl) (by decide)
  rw [ofChar, ofLabel, if_neg clear, if_neg erase, if_neg equals]

theorem Display.pressAll_input (front : String) {text : List Char}
    (plain : ∀ c ∈ text, c ∉ Key.controls) :
    Display.pressAll ⟨front, false⟩ (text.map Key.ofChar) =
      ⟨front ++ String.ofList text, false⟩ := by
  have keys : text.map Key.ofChar = (text.map Char.toString).map .input := by
    rw [List.map_map]
    exact List.map_congr_left fun c member => Key.ofChar_eq_input (plain c member)
  have joined : String.join (text.map Char.toString) = String.ofList text := by
    apply String.toList_injective
    simp [String.toList_join, List.flatMap_map]
  rw [keys, pressAll_texts, joined]

namespace Evaluation

/-- No expression with a value has a blank or the label of a control key in it. -/
theorem plain_of_value {text : String} {value : Float} (valued : ofText text = .ok value) {c : Char}
    (member : c ∈ text.toList) : Text.isBlank c = false ∧ c ∉ Key.controls := by
  have foreign : ∀ c ∈ Text.blanks ++ Key.controls, c ∉ Canonical.respelled ∧
      Decimal.isNumeralChar c = false ∧ (∀ f ∈ UnaryFunction.all, c ∉ f.name.toList) ∧
      Lexeme.ofSymbol? c = none := Text.forall_mem_of_all (by decide)
  have absent : c ∉ Text.blanks ++ Key.controls := by
    intro refused
    obtain ⟨plain, numeral, names, sign⟩ := foreign c refused
    have inside := (Canonical.mem_canonicalChars_iff plain text.toList).mpr member
    obtain isNumeral | ⟨f, isLetter⟩ | isSign := character_of_value valued inside
    · rw [numeral] at isNumeral
      cases isNumeral
    · exact names f f.mem_all isLetter
    · rw [sign] at isSign
      cases isSign
  rw [List.mem_append, not_or] at absent
  refine ⟨?_, absent.2⟩
  rw [Text.isBlank, List.contains_eq_mem, decide_eq_false_iff_not]
  exact absent.1

end Evaluation

namespace Session

/-- Texts that can be typed as they stand: those with a value, and those without blanks and labels
    of control keys. -/
def Typeable (text : String) : Prop :=
  (∃ result, Evaluation.shown text = .ok result) ∨
    ∀ c ∈ text.toList, Text.isBlank c = false ∧ c ∉ Key.controls

theorem Typeable.plain {text : String} (typeable : Typeable text) :
    ∀ c ∈ text.toList, Text.isBlank c = false ∧ c ∉ Key.controls := by
  obtain ⟨result, shown⟩ | plain := typeable
  · intro c member
    rw [Evaluation.shown] at shown
    split at shown
    next value valued => exact Evaluation.plain_of_value valued member
    next => cases shown
  · exact plain

/-- The line that clears the display, types a text and calculates. -/
def enclose (text : String) : String :=
  "C" ++ text ++ "="

theorem nonblank_enclose {text : String} (plain : ∀ c ∈ text.toList, Text.isBlank c = false) :
    Text.nonblank (enclose text).toList = (enclose text).toList := by
  apply Text.nonblank_eq_self
  rw [enclose, String.toList_append, String.toList_append, List.forall_mem_append,
    List.forall_mem_append]
  exact ⟨⟨Text.forall_mem_of_all (by decide), plain⟩, Text.forall_mem_of_all (by decide)⟩

theorem pressAll_enclose (display : Display) {text : String} (typeable : Typeable text) :
    display.pressAll ((Text.nonblank (enclose text).toList).map Key.ofChar) =
      Display.ofOutcome (Evaluation.shown text) := by
  have plain := typeable.plain
  have typed := Display.pressAll_input "" fun c member => (plain c member).2
  rw [nonblank_enclose fun c member => (plain c member).1, enclose, String.toList_append,
    String.toList_append, List.map_append, List.map_append, Display.pressAll_append,
    Display.pressAll_append]
  change (Display.pressAll ⟨"", false⟩ _).calculate = _
  rw [typed, String.empty_append, String.ofList_toList]
  exact Display.calculate_of_outcome (Display.outcome_plain text)

theorem run_enclose (display : Display) {texts : List String}
    (typeable : ∀ text ∈ texts, Typeable text) :
    run display (Report.ofLines (texts.map enclose)).toUTF8.data.toList =
      ⟨texts.map fun text => Display.ofOutcome (Evaluation.shown text), true⟩ := by
  rw [run, toUTF8_eq_encode, rawLines_encode]
  induction texts generalizing display with
  | nil => rfl
  | cons text texts inductionHypothesis =>
    have here := typeable text List.mem_cons_self
    have unbroken : '\n' ∉ (enclose text).toList := by
      rw [← nonblank_enclose fun c member => (here.plain c member).1]
      intro broken
      exact absurd (Text.isBlank_of_mem_nonblank broken) (by decide)
    have newlineBlank : Text.nonblank ['\n'] = [] := by decide
    rw [List.map_cons, Text.toList_ofLines_cons,
      Text.cutBehind_append (Text.ends_newline_eq_false unbroken) rfl, List.map_cons,
      ofRawLines_cons, Text.nonblank_append, newlineBlank, List.append_nil,
      pressAll_enclose display here]
    simp only [inductionHypothesis _ fun other member =>
      typeable other (List.mem_cons_of_mem _ member), List.map_cons]

end Session

/-- The text of a display, with error messages marked as a batch marks them. -/
def Display.marked (display : Display) : String :=
  if display.showsError then "Error: " ++ display.text else display.text

theorem Report.ofExpression_plain (text : String) :
    Report.ofExpression .plain text = (Display.ofOutcome (Evaluation.shown text)).marked := by
  rw [Report.ofExpression]
  split
  next result shown =>
    rw [shown]
    rfl
  next message shown =>
    rw [shown]
    rfl

/-- A line that clears, types a text and calculates shows what the text evaluates to. So a session
    over such lines prints what a batch of the texts prints, where every failure is marked. -/
theorem Session.session_eq_batch (display : Display) :
    (∀ text, Typeable text →
      pressLine display (enclose text) = Display.ofOutcome (Evaluation.shown text)) ∧
    ∀ texts : List String, (∀ text ∈ texts, Typeable text) →
      let transcript := run display (Report.ofLines (texts.map enclose)).toUTF8.data.toList
      transcript.complete = true ∧
        transcript.displays = texts.map (fun text => Display.ofOutcome (Evaluation.shown text)) ∧
        transcript.output .plain = Report.ofLines (transcript.displays.map Display.text) ∧
        Report.batch .plain texts =
          Report.ofLines (transcript.displays.map Display.marked) := by
  constructor
  · intro text typeable
    rw [pressLine, pressAll_lineKeys, pressAll_enclose display typeable]
  · intro texts typeable transcript
    have shown : transcript = _ := run_enclose display typeable
    rw [shown]
    refine ⟨rfl, rfl, rfl, ?_⟩
    rw [Report.batch, List.map_map]
    apply congrArg Report.ofLines
    apply List.map_congr_left
    intro text _
    rw [Report.ofExpression_plain, Function.comp_apply]

/-- A message is shown before, and only the first text has a value. -/
theorem Session.session_eq_batch_of_failing :
    (∀ text ∈ ["2sin(30)", "5÷0", "2)", "x"], Typeable text) ∧
      pressLine ⟨"Division by zero", true⟩ (enclose "2)") =
        ⟨"Syntax error: unmatched ')' at position 1", true⟩ ∧
      (run ⟨"Division by zero", true⟩ (Report.ofLines
          (["2sin(30)", "5÷0", "2)", "x"].map enclose)).toUTF8.data.toList).displays =
        ["2sin(30)", "5÷0", "2)", "x"].map fun text =>
          Display.ofOutcome (Evaluation.shown text) := by
  have typeable : ∀ text ∈ ["2sin(30)", "5÷0", "2)", "x"], Typeable text := by
    intro text member
    simp only [List.mem_cons, List.not_mem_nil, or_false] at member
    obtain rfl | rfl | rfl | rfl := member
    all_goals exact .inr (Text.forall_mem_of_all (by decide))
  have unmatched : Display.ofOutcome (Evaluation.shown "2)") =
      ⟨"Syntax error: unmatched ')' at position 1", true⟩ := by
    decide +kernel
  have agreement := session_eq_batch ⟨"Division by zero", true⟩
  refine ⟨typeable, ?_, (agreement.2 _ typeable).2.1⟩
  rw [agreement.1 "2)" (typeable "2)" (by decide)), unmatched]

end Keypad
