import Keypad.Proofs.Text.Runs
import Keypad.Report
import Keypad.Text.Blank

/-!
# Words and lines

The words of a text are what is left of it without its blanks, cut into pieces (`flatten_words`).
Lines end behind newlines, and a text is gone through line by line (`induction_on_pieces`). Lines
that are printed are the lines that are read again (`lines_ofLines`).
-/

namespace Keypad

namespace Text

/-- Checks the characters of a text. Deciding the statement itself may go through all characters
    there are. -/
theorem forall_mem_of_all {text : List Char} {property : Char → Prop} [DecidablePred property]
    (checked : text.all (fun c => decide (property c)) = true) : ∀ c ∈ text, property c := by
  intro c member
  exact of_decide_eq_true (List.all_eq_true.mp checked c member)

/-! ## Words -/

/-- A text without its blanks. -/
def nonblank (text : List Char) : List Char :=
  text.filter fun c => !isBlank c

@[simp] theorem nonblank_append (text later : List Char) :
    nonblank (text ++ later) = nonblank text ++ nonblank later :=
  List.filter_append _ _

theorem nonblank_flatten (texts : List (List Char)) :
    nonblank texts.flatten = (texts.map nonblank).flatten :=
  List.filter_flatten

theorem isBlank_of_mem_nonblank {text : List Char} {c : Char} (member : c ∈ nonblank text) :
    isBlank c = false := by
  simpa using (List.mem_filter.mp member).2

theorem nonblank_eq_self {text : List Char} (plain : ∀ c ∈ text, isBlank c = false) :
    nonblank text = text := by
  rw [nonblank, List.filter_eq_self]
  intro c member
  rw [plain c member]
  rfl

theorem nonblank_eq_nil {text : List Char} (blank : ∀ c ∈ text, isBlank c = true) :
    nonblank text = [] := by
  rw [nonblank, List.filter_eq_nil_iff]
  intro c member
  rw [blank c member]
  decide

theorem flatten_words (text : List Char) : (words text).flatten = nonblank text := by
  have alike : ∀ run ∈ Run.split (fun left right => isBlank left == isBlank right) text,
      ∀ c ∈ run.toList, isBlank c = isBlank run.first := by
    intro run member
    apply Run.forall_of_first (fun c => isBlank c = isBlank run.first) _ member rfl
    intro left right joined same
    rw [← same]
    exact (beq_iff_eq.mp joined).symm
  have whole := Run.flatMap_toList_split (fun left right => isBlank left == isBlank right) text
  rw [words]
  generalize Run.split (fun left right => isBlank left == isBlank right) text = runs at alike whole
  subst whole
  induction runs with
  | nil => rfl
  | cons run runs inductionHypothesis =>
    have rest := inductionHypothesis fun other member => alike other (List.mem_cons_of_mem _ member)
    have kind := alike run List.mem_cons_self
    rw [List.flatMap_cons, nonblank_append, ← rest, List.filter_cons]
    cases blank : isBlank run.first with
    | true =>
      rw [nonblank_eq_nil fun c member => (kind c member).trans blank]
      rfl
    | false =>
      rw [nonblank_eq_self fun c member => (kind c member).trans blank]
      rfl

/-! ## Lines -/

/-- Cuts a list behind every end. -/
def cutBehind {α : Type} (ends : α → Bool) (elements : List α) : List (List α) :=
  (Run.split (fun element _ => !ends element) elements).map Run.toList

/-- The lines of a text, without the newlines behind them. The last line need not have one. -/
def lines (text : List Char) : List (List Char) :=
  (cutBehind (· == '\n') text).map fun line => line.filter (· != '\n')

section Cutting

variable {α : Type} {ends : α → Bool}

theorem cutBehind_eq_splitBy (elements : List α) :
    cutBehind ends elements = elements.splitBy fun element _ => !ends element :=
  Run.map_toList_split _ elements

/-- What is behind an end is cut by itself. -/
theorem cutBehind_append_end {last : α} (isEnd : ends last = true) (front rest : List α) :
    cutBehind ends (front ++ last :: rest) =
      cutBehind ends (front ++ [last]) ++ cutBehind ends rest := by
  rw [List.append_cons, cutBehind_eq_splitBy, cutBehind_eq_splitBy, cutBehind_eq_splitBy,
    List.splitBy_append]
  intro element isLast next _
  rw [List.getLast?_concat] at isLast
  cases isLast
  rw [isEnd]
  rfl

theorem isChain_of_endless {piece : List α} (endless : ∀ element ∈ piece, ends element = false) :
    piece.IsChain fun element _ => (!ends element) = true := by
  apply (List.pairwise_of_forall_mem_list _).isChain
  intro left member right _
  rw [endless left member]
  rfl

theorem cutBehind_endless {piece : List α} (endless : ∀ element ∈ piece, ends element = false)
    (nonempty : piece ≠ []) : cutBehind ends piece = [piece] := by
  rw [cutBehind_eq_splitBy, List.splitBy_of_isChain nonempty (isChain_of_endless endless)]

theorem cutBehind_append {piece : List α} (endless : ∀ element ∈ piece, ends element = false)
    {last : α} (isEnd : ends last = true) (rest : List α) :
    cutBehind ends (piece ++ last :: rest) = (piece ++ [last]) :: cutBehind ends rest := by
  have alone : cutBehind ends (piece ++ [last]) = [piece ++ [last]] := by
    rw [cutBehind_eq_splitBy]
    apply List.splitBy_of_isChain (List.append_ne_nil_of_right_ne_nil _ (List.cons_ne_nil _ _))
    apply (isChain_of_endless endless).append (.singleton last)
    intro left isLast next _
    rw [endless left (List.mem_of_getLast? isLast)]
    rfl
  rw [cutBehind_append_end isEnd, alone]
  rfl

/-- Goes through a list piece by piece. The last piece has no end. -/
@[elab_as_elim] theorem induction_on_pieces (ends : α → Bool) {motive : List α → Prop}
    (nil : motive [])
    (rest : ∀ piece, piece ≠ [] → (∀ element ∈ piece, ends element = false) → motive piece)
    (append : ∀ piece last later, (∀ element ∈ piece, ends element = false) → ends last = true →
      motive later → motive (piece ++ last :: later))
    (elements : List α) : motive elements := by
  suffices behind : ∀ piece, (∀ element ∈ piece, ends element = false) →
      motive (piece ++ elements) by
    exact behind [] fun element member => by cases member
  induction elements with
  | nil =>
    intro piece endless
    rw [List.append_nil]
    by_cases empty : piece = []
    · rw [empty]
      exact nil
    · exact rest piece empty endless
  | cons first later inductionHypothesis =>
    intro piece endless
    cases isEnd : ends first with
    | true =>
      exact append piece first later endless isEnd
        (inductionHypothesis [] fun element member => by cases member)
    | false =>
      rw [List.append_cons]
      apply inductionHypothesis
      intro element member
      obtain member | isFirst := List.mem_append.mp member
      · exact endless element member
      · rw [List.mem_singleton.mp isFirst]
        exact isEnd

end Cutting

theorem ends_newline_eq_false {line : List Char} (unbroken : '\n' ∉ line) :
    ∀ c ∈ line, (c == '\n') = false := by
  intro c member
  rw [beq_eq_false_iff_ne]
  rintro rfl
  exact unbroken member

theorem filter_newline_eq_self {line : List Char} (unbroken : '\n' ∉ line) :
    line.filter (· != '\n') = line := by
  rw [List.filter_eq_self]
  intro c member
  rw [bne, ends_newline_eq_false unbroken c member]
  rfl

theorem toList_ofLines_cons (line : String) (printed : List String) :
    (Report.ofLines (line :: printed)).toList =
      line.toList ++ '\n' :: (Report.ofLines printed).toList := by
  simp [Report.ofLines, String.join_cons]

/-- Lines that are printed with their ends are cut where they end. -/
theorem cutBehind_ofLines {printed : List String}
    (unbroken : ∀ line ∈ printed, '\n' ∉ line.toList) :
    cutBehind (· == '\n') (Report.ofLines printed).toList =
      printed.map fun line => line.toList ++ ['\n'] := by
  induction printed with
  | nil => rfl
  | cons line printed inductionHypothesis =>
    rw [toList_ofLines_cons,
      cutBehind_append (ends_newline_eq_false (unbroken line List.mem_cons_self)) rfl,
      inductionHypothesis fun other member => unbroken other (List.mem_cons_of_mem _ member),
      List.map_cons]

/-- Lines that are printed with their ends are read again. -/
theorem lines_ofLines {printed : List String} (unbroken : ∀ line ∈ printed, '\n' ∉ line.toList) :
    lines (Report.ofLines printed).toList = printed.map String.toList := by
  rw [lines, cutBehind_ofLines unbroken, List.map_map]
  apply List.map_congr_left
  intro line member
  rw [Function.comp_apply, List.filter_append, filter_newline_eq_self (unbroken line member)]
  exact List.append_nil _

end Text

end Keypad
