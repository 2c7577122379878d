import Keypad.Display

/-!
# Erasing what was typed

Texts that are typed without an error message on the display are appended to it, and erasing takes
one character away at a time, whichever key it was typed with (`pressAll_texts`,
`pressAll_backspaces`). So typing and then erasing as many characters leaves no trace in what follows
(`typing_undone`).
-/

namespace Keypad.Display

/-- The answers to keys that are pressed one after the other. -/
def answers (display : Display) : List Key → List (Option (Except String String))
  | [] => []
  | key :: later => display.answer? key :: (display.press key).answers later

theorem length_answers (display : Display) (keys : List Key) :
    (display.answers keys).length = keys.length := by
  induction keys generalizing display with
  | nil => rfl
  | cons key keys inductionHypothesis => simp [answers, inductionHypothesis]

theorem answers_append (display : Display) (keys later : List Key) :
    display.answers (keys ++ later) =
      display.answers keys ++ (display.pressAll keys).answers later := by
  induction keys generalizing display with
  | nil => rfl
  | cons key keys inductionHypothesis => simp [answers, inductionHypothesis]

/-- The answers to the last keys are those of the display that the first ones lead to. -/
theorem drop_answers (display : Display) (keys later : List Key) :
    (display.answers (keys ++ later)).drop keys.length =
      (display.pressAll keys).answers later := by
  rw [answers_append, List.drop_left' (length_answers display keys)]

theorem pressAll_texts (front : String) (texts : List String) :
    pressAll ⟨front, false⟩ (texts.map .input) = ⟨front ++ String.join texts, false⟩ := by
  induction texts generalizing front with
  | nil => simp
  | cons text texts inductionHypothesis =>
    have typed : press ⟨front, false⟩ (.input text) = ⟨front ++ text, false⟩ := rfl
    rw [List.map_cons, pressAll_cons, typed, inductionHypothesis, String.join_cons,
      String.append_assoc]

theorem pressAll_backspaces (text : List Char) (count : Nat) :
    pressAll ⟨String.ofList text, false⟩ (List.replicate count .backspace) =
      ⟨String.ofList (text.take (text.length - count)), false⟩ := by
  induction count generalizing text with
  | zero => simp
  | succ count inductionHypothesis =>
    have erased : press ⟨String.ofList text, false⟩ .backspace =
        ⟨String.ofList text.dropLast, false⟩ := by
      simp [press, eraseLast]
    have fewer : text.length - 1 - count = text.length - (count + 1) := by omega
    rw [List.replicate_succ, pressAll_cons, erased, inductionHypothesis, List.length_dropLast,
      List.dropLast_eq_take, List.take_take, fewer, Nat.min_eq_left (by omega)]

/-- Erasing stops where the typed texts began. -/
theorem pressAll_typed_erased {display : Display} (plain : display.showsError = false)
    (texts : List String) :
    display.pressAll
      (texts.map .input ++ List.replicate (String.join texts).length .backspace) = display := by
  obtain ⟨front, shown⟩ := display
  cases plain
  have whole : front ++ String.join texts =
      String.ofList (front.toList ++ (String.join texts).toList) := by
    rw [String.ofList_append, String.ofList_toList, String.ofList_toList]
  rw [pressAll_append, pressAll_texts, whole, pressAll_backspaces, List.length_append,
    String.length_toList, String.length_toList, Nat.add_sub_cancel, ← String.length_toList,
    List.take_left, String.ofList_toList]

/-- Typing texts and erasing as many characters as they have together changes neither the display
    that later keys lead to nor the answers to them. -/
theorem typing_undone (display : Display) {earlier : List Key}
    (plain : (display.pressAll earlier).showsError = false) (texts : List String)
    (later : List Key) :
    let undone := earlier ++ texts.map .input ++
      List.replicate (String.join texts).length .backspace
    display.pressAll (undone ++ later) = display.pressAll (earlier ++ later) ∧
      (display.answers (undone ++ later)).drop undone.length =
        (display.answers (earlier ++ later)).drop earlier.length := by
  intro undone
  have same : display.pressAll undone = display.pressAll earlier := by
    simp only [undone, List.append_assoc]
    rw [pressAll_append, pressAll_typed_erased plain]
  constructor
  · rw [pressAll_append display undone later, same, ← pressAll_append]
  · rw [drop_answers, drop_answers, same]

/-- A negative result is extended by several texts, of which one is empty and one ends beyond the
    Basic Multilingual Plane. -/
theorem typing_undone_of_extendedResult :
    let earlier : List Key := [.input "5÷0", .calculate, .input "2−3", .calculate]
    let undone : List Key := earlier ++ ["×sin(", "", "π𝟚"].map .input ++
      List.replicate (String.join ["×sin(", "", "π𝟚"]).length .backspace
    let later : List Key := [.input "×4", .calculate]
    (empty.pressAll earlier).showsError = false ∧
      empty.pressAll (undone ++ later) = ⟨"-4", false⟩ ∧
      (empty.answers (undone ++ later)).drop undone.length =
        (empty.answers (earlier ++ later)).drop earlier.length := by
  intro earlier undone later
  have plain : (empty.pressAll earlier).showsError = false := by decide +kernel
  obtain ⟨shown, answered⟩ := typing_undone empty plain ["×sin(", "", "π𝟚"] later
  have result : empty.pressAll (earlier ++ later) = ⟨"-4", false⟩ := by decide +kernel
  exact ⟨plain, shown.trans result, answered⟩

end Keypad.Display
