import Mathlib.Data.List.SplitBy
import Keypad.Text.Run

/-!
# Runs of a list

The runs of a list are its pieces in the sense of `List.splitBy` (`map_toList_split`). So cutting
loses and moves nothing, every run is a chain of joins, neighbouring runs do not join, and a cut is
known from this.
-/

namespace Keypad.Run

variable {α : Type} {joins : α → α → Bool}

theorem toList_injective : Function.Injective (toList : Run α → List α) := by
  rintro ⟨first, rest⟩ ⟨other, others⟩ same
  cases same
  rfl

theorem nil_not_mem_map_toList (runs : List (Run α)) : [] ∉ runs.map toList := by
  intro member
  obtain ⟨run, -, empty⟩ := List.mem_map.mp member
  exact run.toList_ne_nil empty

theorem map_toList_split (joins : α → α → Bool) (elements : List α) :
    (split joins elements).map toList = elements.splitBy joins := by
  induction elements with
  | nil => rfl
  | cons element later inductionHypothesis =>
    obtain ⟨whole, -, chains, boundaries⟩ := List.splitBy_eq_iff.mp inductionHypothesis.symm
    rw [eq_comm, List.splitBy_eq_iff, split]
    generalize split joins later = runs at whole chains boundaries
    subst whole
    cases runs with
    | nil =>
      exact ⟨rfl, nil_not_mem_map_toList _, List.forall_mem_singleton.mpr (.singleton element),
        .singleton _⟩
    | cons run runs =>
      rw [List.map_cons, List.forall_mem_cons] at chains
      rw [List.map_cons, List.isChain_cons] at boundaries
      obtain ⟨last, apart⟩ := boundaries
      dsimp only
      split
      next joined =>
        refine ⟨rfl, nil_not_mem_map_toList _, ?_, ?_⟩
        · rw [List.map_cons, List.forall_mem_cons]
          exact ⟨chains.1.cons_cons joined, chains.2⟩
        · rw [List.map_cons, List.isChain_cons]
          refine ⟨fun next isNext => ?_, apart⟩
          obtain ⟨_, nonempty, separate⟩ := last next isNext
          exact ⟨List.cons_ne_nil _ _, nonempty, separate⟩
      next separate =>
        refine ⟨rfl, nil_not_mem_map_toList _, ?_, ?_⟩
        · rw [List.map_cons, List.forall_mem_cons]
          exact ⟨.singleton element, List.forall_mem_cons.mpr chains⟩
        · rw [List.map_cons, List.map_cons, List.isChain_cons_cons, List.isChain_cons]
          exact ⟨⟨List.cons_ne_nil _ _, run.toList_ne_nil, (Bool.not_eq_true _).mp separate⟩, last,
            apart⟩

/-- Nothing is lost or moved by cutting. -/
theorem flatMap_toList_split (joins : α → α → Bool) (elements : List α) :
    (split joins elements).flatMap toList = elements := by
  rw [List.flatMap_def, map_toList_split, List.flatten_splitBy]

theorem mem_iff_mem_run (joins : α → α → Bool) {elements : List α} {element : α} :
    element ∈ elements ↔ ∃ run ∈ split joins elements, element ∈ run.toList := by
  conv =>
    lhs
    rw [← flatMap_toList_split joins elements]
  exact List.mem_flatMap

theorem split_eq_of_map_toList {elements : List α} {runs : List (Run α)}
    (pieces : elements.splitBy joins = runs.map toList) : split joins elements = runs :=
  List.map_injective_iff.mpr toList_injective ((map_toList_split joins elements).trans pieces)

theorem isChain_of_mem_split {elements : List α} {run : Run α}
    (member : run ∈ split joins elements) :
    run.toList.IsChain fun left right => joins left right = true := by
  apply List.isChain_of_mem_splitBy (l := elements)
  rw [← map_toList_split]
  exact List.mem_map_of_mem member

theorem split_of_isChain {run : Run α}
    (chain : run.toList.IsChain fun left right => joins left right = true) :
    split joins run.toList = [run] :=
  split_eq_of_map_toList (List.splitBy_of_isChain run.toList_ne_nil chain)

theorem split_of_joined {run : Run α}
    (joined : ∀ left ∈ run.toList, ∀ right ∈ run.toList, joins left right = true) :
    split joins run.toList = [run] :=
  split_of_isChain (List.pairwise_of_forall_mem_list joined).isChain

theorem split_of_mem {elements : List α} {run : Run α} (member : run ∈ split joins elements) :
    split joins run.toList = [run] :=
  split_of_isChain (isChain_of_mem_split member)

/-- A list is cut in any case where two neighbours do not join. -/
theorem split_append_of_apart {front back : List α}
    (apart : ∀ last ∈ front.getLast?, ∀ next ∈ back.head?, joins last next = false) :
    split joins (front ++ back) = split joins front ++ split joins back := by
  apply split_eq_of_map_toList
  rw [List.splitBy_append apart, List.map_append, map_toList_split, map_toList_split]

theorem split_append {next : α} (apart : ∀ element, joins element next = false)
    (front back : List α) :
    split joins (front ++ next :: back) = split joins front ++ split joins (next :: back) := by
  apply split_append_of_apart
  intro last _ other isNext
  cases isNext
  exact apart last

theorem split_cons_of_apart {element : α} (apart : ∀ next, joins element next = false)
    (later : List α) : split joins (element :: later) = ⟨element, []⟩ :: split joins later := by
  have cut : split joins ([element] ++ later) = split joins [element] ++ split joins later := by
    apply split_append_of_apart
    intro last isLast next _
    cases isLast
    exact apart next
  exact cut

/-- A property that spreads along joins and holds of the first element of a run holds of the whole
    run. -/
theorem forall_of_first (property : α → Prop)
    (spreads : ∀ left right, joins left right = true → property left → property right)
    {elements : List α} {run : Run α} (member : run ∈ split joins elements)
    (holds : property run.first) : ∀ element ∈ run.toList, property element :=
  (isChain_of_mem_split member).induction property run.toList spreads fun _ => holds

/-! ## Where runs stand -/

/-- The first run reaches as far as it can. -/
theorem split_eq_cons {elements : List α} {run : Run α} {runs : List (Run α)}
    (cut : split joins elements = run :: runs) :
    ∃ later, elements = run.toList ++ later ∧ split joins later = runs ∧
      ∀ last ∈ run.toList.getLast?, ∀ next ∈ later.head?, joins last next = false := by
  have pieces := map_toList_split joins elements
  rw [cut, eq_comm, List.map_cons, List.splitBy_eq_iff] at pieces
  obtain ⟨whole, -, chains, boundaries⟩ := pieces
  rw [List.isChain_cons] at boundaries
  refine ⟨(runs.map toList).flatten, whole, ?_, ?_⟩
  · apply split_eq_of_map_toList
    exact List.splitBy_flatten (nil_not_mem_map_toList runs)
      (fun piece member => chains piece (List.mem_cons_of_mem _ member)) boundaries.2
  · intro last isLast next isNext
    cases runs with
    | nil => cases isNext
    | cons second runs =>
      obtain ⟨_, _, separate⟩ := boundaries.1 second.toList rfl
      cases isNext
      rw [List.getLast?_eq_some_getLast run.toList_ne_nil] at isLast
      cases isLast
      exact separate

theorem split_cons (joins : α → α → Bool) (element : α) (later : List α) :
    ∃ run runs, split joins (element :: later) = run :: runs ∧ run.first = element := by
  cases cut : split joins (element :: later) with
  | nil =>
    have whole := flatMap_toList_split joins (element :: later)
    rw [cut] at whole
    cases whole
  | cons run runs =>
    obtain ⟨behind, whole, -, -⟩ := split_eq_cons cut
    exact ⟨run, runs, rfl, (List.cons.inj whole).1.symm⟩

theorem split_first {run : Run α} {later : List α}
    (cut : split joins (run.toList ++ later) = run :: split joins later)
    (apart : ∀ last ∈ run.toList.getLast?, ∀ next ∈ later.head?, joins last next = false) :
    split joins run.toList = [run] := by
  rw [split_append_of_apart apart] at cut
  exact List.append_cancel_right cut

/-- Goes through a list run by run. -/
@[elab_as_elim] theorem induction_on_split (joins : α → α → Bool) {motive : List α → Prop}
    (nil : motive [])
    (cons : ∀ run later, split joins run.toList = [run] →
      (∀ last ∈ run.toList.getLast?, ∀ next ∈ later.head?, joins last next = false) →
      motive later → motive (run.toList ++ later)) (elements : List α) : motive elements := by
  generalize cut : split joins elements = runs
  induction runs generalizing elements with
  | nil =>
    rw [← flatMap_toList_split joins elements, cut]
    exact nil
  | cons run runs inductionHypothesis =>
    obtain ⟨later, rfl, rfl, apart⟩ := split_eq_cons cut
    exact cons run later (split_first cut apart) apart (inductionHypothesis later rfl)

/-- Each run is a part of the list that joins neither of its neighbours, and the part before it is
    cut as it is in the list. -/
theorem exists_of_split_eq_append {elements : List α} {front back : List (Run α)} {run : Run α}
    (cut : split joins elements = front ++ run :: back) :
    ∃ before after, elements = before ++ run.toList ++ after ∧ split joins before = front ∧
      split joins run.toList = [run] ∧
      (∀ last ∈ before.getLast?, joins last run.first = false) ∧
      ∀ last ∈ run.toList.getLast?, ∀ next ∈ after.head?, joins last next = false := by
  induction front generalizing elements with
  | nil =>
    obtain ⟨later, rfl, rfl, apart⟩ := split_eq_cons cut
    refine ⟨[], later, rfl, rfl, split_first cut apart, ?_, apart⟩
    intro last isLast
    cases isLast
  | cons first front inductionHypothesis =>
    obtain ⟨later, rfl, cutLater, apart⟩ := split_eq_cons cut
    obtain ⟨before, after, rfl, rfl, alone, left, right⟩ := inductionHypothesis cutLater
    have firstAlone := split_first (cut.trans (congrArg (first :: ·) cutLater.symm)) apart
    refine ⟨first.toList ++ before, after, by simp only [List.append_assoc], ?_, alone, ?_, right⟩
    · rw [split_append_of_apart, firstAlone]
      · rfl
      · intro last isLast next isNext
        apply apart last isLast
        rw [List.append_assoc, List.head?_append, isNext]
        rfl
    · cases before with
      | nil =>
        rw [List.append_nil]
        intro last isLast
        exact apart last isLast run.first rfl
      | cons next before =>
        rw [List.getLast?_append]
        exact left

end Keypad.Run
