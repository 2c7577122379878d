/-!
# Runs

A list falls into maximal runs of elements that join their right neighbour. Scanning a text into
tokens, a line into words and an input into lines are all of this kind.
-/

namespace Keypad

/-- A nonempty stretch of a list. -/
structure Run (α : Type) where
  first : α
  rest : List α
deriving DecidableEq, Repr

namespace Run

def toList {α : Type} (run : Run α) : List α :=
  run.first :: run.rest

/-- The run with one more element in front. -/
def extend {α : Type} (element : α) (run : Run α) : Run α :=
  ⟨element, run.toList⟩

@[simp] theorem toList_extend {α : Type} (element : α) (run : Run α) :
    (run.extend element).toList = element :: run.toList := rfl

theorem toList_ne_nil {α : Type} (run : Run α) : run.toList ≠ [] :=
  List.cons_ne_nil _ _

/-- Cuts a list wherever two neighbours do not join. -/
def split {α : Type} (joins : α → α → Bool) : List α → List (Run α)
  | [] => []
  | element :: later =>
    match split joins later with
    | [] => [⟨element, []⟩]
    | run :: runs =>
      if joins element run.first then run.extend element :: runs
      else ⟨element, []⟩ :: run :: runs

end Run

end Keypad
