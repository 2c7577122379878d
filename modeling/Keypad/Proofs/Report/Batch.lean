import Keypad.Json.Reader
import Keypad.Proofs.Display.ErrorFlag
import Keypad.Proofs.Json.Printable
import Keypad.Proofs.Session.Batch

/-!
# Batches in both formats

The lines of a batch can be told apart, because neither results nor messages have line breaks in
them, whatever is typed (`unbroken_ofExpression`). The plain line and the object for an expression
say the same (`ofExpression_of_value`, `ofExpression_of_failure`).
-/

namespace Keypad.Report

/-! ## Lines -/

theorem unbroken_ofExpression (format : Format) (text : String) :
    '\n' ∉ (ofExpression format text).toList := by
  intro member
  cases format with
  | plain =>
    have spaced := Display.Spaced.ofOutcome_shown text
    rw [ofExpression_plain, Display.marked] at member
    split at member
    · obtain mark | message := List.mem_append.mp (String.toList_append ▸ member)
      · exact absurd mark (by decide)
      · exact spaced.newline_not_mem message
    · exact spaced.newline_not_mem member
  | json =>
    rw [ofExpression] at member
    split at member
    all_goals exact absurd (Json.printable_writeObject _ _ member) (by decide)

theorem cutBehind_batch (format : Format) (texts : List String) :
    Text.cutBehind (· == '\n') (batch format texts).toList =
      texts.map fun text => (ofExpression format text).toList ++ ['\n'] := by
  rw [batch, Text.cutBehind_ofLines, List.map_map]
  · rfl
  · intro line member
    obtain ⟨text, -, rfl⟩ := List.mem_map.mp member
    exact unbroken_ofExpression format text

/-! ## What a line says -/

theorem ofExpression_of_value {text : String} {value : Float}
    (valued : Evaluation.ofText text = .ok value) :
    ofExpression .plain text = Number.Style.display.write value ∧
      Json.readObject? (ofExpression .json text) =
        some [("input", .text text), ("result", .text (Number.Style.display.write value))] := by
  constructor
  · simp only [ofExpression, Evaluation.shown, valued]
  · simp only [ofExpression, valued, Json.readObject?_writeObject]

theorem ofExpression_of_failure {text : String} {failure : Failure}
    (failed : Evaluation.ofText text = .error failure) :
    ofExpression .plain text = "Error: " ++ failure.message ∧
      Json.readObject? (ofExpression .json text) =
        some [("input", .text text), ("error", .text failure.message),
          ("kind", .text failure.kind.name)] := by
  constructor
  · simp only [ofExpression, Evaluation.shown, failed]
  · simp only [ofExpression, failed, Json.readObject?_writeObject]

/-- No result has a space, which the mark of an error has. -/
theorem not_marked (value : Float) :
    ¬ "Error: ".toList <+: (Number.Style.display.write value).toList := by
  intro marked
  have plain := Number.Style.isBlank_of_mem_write (Text.forall_mem_of_all (by decide))
    (Text.forall_mem_of_all (by decide)) value ' ' (marked.subset (by decide))
  exact absurd plain (by decide)

/-- Both formats count the same lines as successes. -/
theorem succeeds_eq (format : Format) (text : String) :
    succeeds format text = (Evaluation.ofText text).isOk := by
  cases format with
  | plain =>
    rw [succeeds, Evaluation.shown]
    cases Evaluation.ofText text <;> rfl
  | json => rfl

theorem batchSucceeds_eq (format : Format) (texts : List String) :
    batchSucceeds format texts = allSucceed texts :=
  congrArg texts.all (funext (succeeds_eq format))

theorem allSucceed_iff (texts : List String) :
    allSucceed texts = true ↔ ∀ text ∈ texts, ∃ value, Evaluation.ofText text = .ok value := by
  have isOk_iff (text : String) :
      (Evaluation.ofText text).isOk = true ↔ ∃ value, Evaluation.ofText text = .ok value := by
    cases Evaluation.ofText text <;> simp [Except.isOk, Except.toBool]
  simp only [allSucceed, List.all_eq_true, isOk_iff]

theorem prefix_iff_failure (text : String) :
    "Error: ".toList <+: (ofExpression .plain text).toList ↔
      ∃ failure, Evaluation.ofText text = .error failure := by
  cases valued : Evaluation.ofText text with
  | ok value =>
    rw [(ofExpression_of_value valued).1]
    exact ⟨fun marked => absurd marked (not_marked value), fun ⟨_, failed⟩ => by cases failed⟩
  | error failure =>
    rw [(ofExpression_of_failure valued).1, String.toList_append]
    exact ⟨fun _ => ⟨failure, rfl⟩, fun _ => List.prefix_append _ _⟩

theorem result_iff (text result : String) :
    Json.readObject? (ofExpression .json text) =
        some [("input", .text text), ("result", .text result)] ↔
      ofExpression .plain text = result ∧ ¬ "Error: ".toList <+: result.toList := by
  cases valued : Evaluation.ofText text with
  | ok value =>
    obtain ⟨plain, read⟩ := ofExpression_of_value valued
    rw [plain, read]
    constructor
    · intro same
      simp only [Option.some.injEq, List.cons.injEq, Prod.mk.injEq, Json.Value.text.injEq, true_and,
        and_true] at same
      rw [← same]
      exact ⟨rfl, not_marked value⟩
    · rintro ⟨rfl, -⟩
      rfl
  | error failure =>
    obtain ⟨plain, read⟩ := ofExpression_of_failure valued
    rw [read]
    constructor
    · intro same
      simp at same
    · rintro ⟨rfl, unmarked⟩
      exact absurd ((prefix_iff_failure text).mpr ⟨failure, valued⟩) unmarked

theorem error_iff (text message kind : String) :
    Json.readObject? (ofExpression .json text) =
        some [("input", .text text), ("error", .text message), ("kind", .text kind)] ↔
      ofExpression .plain text = "Error: " ++ message ∧
        ∃ failure, Evaluation.ofText text = .error failure ∧ kind = failure.kind.name := by
  cases valued : Evaluation.ofText text with
  | ok value =>
    obtain ⟨-, read⟩ := ofExpression_of_value valued
    rw [read]
    constructor
    · intro same
      simp at same
    · rintro ⟨-, failure, failed, -⟩
      cases failed
  | error failure =>
    obtain ⟨plain, read⟩ := ofExpression_of_failure valued
    rw [plain, read]
    constructor
    · intro same
      simp only [Option.some.injEq, List.cons.injEq, Prod.mk.injEq, Json.Value.text.injEq, true_and,
        and_true] at same
      obtain ⟨rfl, rfl⟩ := same
      exact ⟨rfl, failure, rfl, rfl⟩
    · rintro ⟨same, _, failed, rfl⟩
      cases failed
      rw [String.append_right_inj] at same
      rw [same]

/-- A batch prints one line for every expression in either format, and tells in both whether all of
    them have values. The object for an expression has the result exactly if the plain line is this
    result, and the message with its kind exactly if the plain line is the message, marked as an
    error. No result is marked. -/
theorem batch_framed (texts : List String) :
    (∀ format, Text.cutBehind (· == '\n') (batch format texts).toList =
        texts.map fun text => (ofExpression format text).toList ++ ['\n']) ∧
      (∀ format, batchSucceeds format texts = allSucceed texts) ∧
      (allSucceed texts = true ↔ ∀ text ∈ texts, ∃ value, Evaluation.ofText text = .ok value) ∧
      ∀ text,
        (∀ result, Json.readObject? (ofExpression .json text) =
            some [("input", .text text), ("result", .text result)] ↔
          ofExpression .plain text = result ∧ ¬ "Error: ".toList <+: result.toList) ∧
        (∀ message kind, Json.readObject? (ofExpression .json text) =
            some [("input", .text text), ("error", .text message), ("kind", .text kind)] ↔
          ofExpression .plain text = "Error: " ++ message ∧
            ∃ failure, Evaluation.ofText text = .error failure ∧ kind = failure.kind.name) ∧
        ("Error: ".toList <+: (ofExpression .plain text).toList ↔
          ∃ failure, Evaluation.ofText text = .error failure) := by
  exact ⟨fun format => cutBehind_batch format texts, fun format => batchSucceeds_eq format texts,
    allSucceed_iff texts, fun text => ⟨result_iff text, error_iff text, prefix_iff_failure text⟩⟩

end Keypad.Report
