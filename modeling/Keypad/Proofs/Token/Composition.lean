import Keypad.Proofs.Token.Reading

/-!
# Texts read in parts

Where two neighbours of a typed text do not belong to the same numeral or word, the parts on either
side are read by themselves, with at most a `*` between them (`reading_append`). A text fails where
the first of its parts that cannot be read does (`Token.ofRuns_of_error`).
-/

namespace Keypad

/-! ## The canonical text of two parts -/

namespace Canonical

/-- Whether two parts of a text multiply. -/
def multiplied (front back : List Char) : Bool :=
  front.getLast?.any fun last => back.head?.any (multiplies last)

theorem canonicalChars_append (front back : List Char) :
    canonicalChars (front ++ back) =
      canonicalChars front ++ sign (multiplied front back) ++ canonicalChars back := by
  obtain rfl | ⟨earlier, last, rfl⟩ := List.eq_nil_or_concat front
  · rfl
  · cases back with
    | nil => simp [multiplied, sign, canonicalChars, multiplyBetween]
    | cons next back =>
      rw [List.concat_eq_append, List.append_assoc, canonicalChars_eq_respell,
        canonicalChars_eq_respell, canonicalChars_eq_respell]
      simp [multiplied, respell_append]

theorem getLast?_canonicalChars (text : List Char) :
    (canonicalChars text).getLast? = text.getLast?.map edge := by
  obtain rfl | ⟨earlier, last, rfl⟩ := List.eq_nil_or_concat text
  · rfl
  · obtain ⟨front, spelled⟩ := spell_eq_append_edge last
    have single : canonicalChars [last] = front ++ [edge last] := by
      rw [canonicalChars_eq_respell]
      exact spelled
    rw [List.concat_eq_append, canonicalChars_append, single, ← List.append_assoc,
      List.getLast?_concat, List.getLast?_concat]
    rfl

theorem head?_canonicalChars (text : List Char) :
    (canonicalChars text).head? = text.head?.map edge := by
  cases text with
  | nil => rfl
  | cons first later =>
    obtain ⟨rest, spelled⟩ := spell_eq_edge_cons first
    have single : canonicalChars [first] = edge first :: rest := by
      rw [canonicalChars_eq_respell]
      exact spelled
    have parts := canonicalChars_append [first] later
    rw [single] at parts
    rw [← List.singleton_append, parts]
    rfl

end Canonical

namespace Lexeme

open Canonical

theorem isNumeralChar_edge (c : Char) :
    Decimal.isNumeralChar (edge c) = (Decimal.isNumeralChar c || c == 'π') := by
  unfold edge
  split
  next isPi =>
    rw [isPi]
    rfl
  next other => rw [isNumeralChar_asciiSymbol, beq_eq_false_iff_ne.mpr other, Bool.or_false]

/-- What joins in the canonical text either joins in the typed text or is kept apart by a `*`. -/
theorem joins_edge (left right : Char) :
    joins (edge left) (edge right) = (joins left right || touchesPi left right) := by
  simp only [joins, touchesPi, isNumeralChar_edge, isAlpha_edge]
  grind

/-- The parts of a text are cut into runs by themselves. -/
theorem split_canonicalChars_append {front back : List Char}
    (apart : ∀ last ∈ front.getLast?, ∀ next ∈ back.head?, joins last next = false) :
    Run.split joins (canonicalChars (front ++ back)) =
      Run.split joins (canonicalChars front) ++ Run.split joins (sign (multiplied front back)) ++
        Run.split joins (canonicalChars back) := by
  rw [canonicalChars_append]
  cases met : multiplied front back with
  | true =>
    have star : isOperandChar '*' = false := by decide
    simp only [sign, if_true]
    rw [List.append_assoc, List.singleton_append, Run.split_append (joins_sign_right star),
      Run.split_cons_of_apart (joins_sign_left star), List.append_assoc]
    rfl
  | false =>
    simp only [sign, Bool.false_eq_true, if_false, List.append_nil, Run.split]
    apply Run.split_append_of_apart
    intro last isLast next isNext
    rw [getLast?_canonicalChars] at isLast
    rw [head?_canonicalChars] at isNext
    obtain ⟨left, leftLast, rfl⟩ := Option.map_eq_some_iff.mp isLast
    obtain ⟨right, rightNext, rfl⟩ := Option.map_eq_some_iff.mp isNext
    have unmultiplied : multiplies left right = false := by
      simpa [multiplied, leftLast, rightNext] using met
    simp only [multiplies, Bool.or_eq_false_iff] at unmultiplied
    rw [joins_edge, apart left leftLast right rightNext, unmultiplied.1.1]
    rfl

theorem ofRuns_sign (multiplied : Bool) :
    ∃ lexemes, ofRuns (Run.split joins (sign multiplied)) = .ok lexemes := by
  cases multiplied with
  | true => exact ⟨[.operator .multiply], rfl⟩
  | false => exact ⟨[], rfl⟩

theorem reading_append {front back : List Char}
    (apart : ∀ last ∈ front.getLast?, ∀ next ∈ back.head?, joins last next = false)
    {lexemes rest : List Lexeme} (frontRead : reading front = .ok lexemes)
    (backRead : reading back = .ok rest) :
    ∃ whole, reading (front ++ back) = .ok whole := by
  obtain ⟨star, between⟩ := ofRuns_sign (multiplied front back)
  rw [reading] at frontRead backRead
  rw [reading, split_canonicalChars_append apart, ofRuns_append, ofRuns_append, frontRead, between,
    backRead]
  exact ⟨_, rfl⟩

end Lexeme

/-! ## Tokens of two parts -/

namespace Token

theorem ofRuns_append (position : Nat) (runs later : List (Run Char)) :
    ofRuns position (runs ++ later) = do
      let tokens ← ofRuns position runs
      let rest ← ofRuns (position + byteLength (runs.flatMap Run.toList)) later
      return tokens ++ rest := by
  induction runs generalizing position with
  | nil =>
    change ofRuns position later = (ofRuns position later).bind _
    cases ofRuns position later <;> rfl
  | cons run runs inductionHypothesis =>
    simp only [List.cons_append, ofRuns, inductionHypothesis, bind_assoc, pure_bind,
      List.flatMap_cons, byteLength_append, Nat.add_assoc]

/-- Runs that can be read can be read anywhere. -/
theorem exists_ofRuns {runs : List (Run Char)} {lexemes : List Lexeme}
    (read : Lexeme.ofRuns runs = .ok lexemes) (position : Nat) :
    ∃ tokens, ofRuns position runs = .ok tokens := by
  rw [← Lexeme.withoutPosition_ofRuns position] at read
  cases found : ofRuns position runs with
  | ok tokens => exact ⟨tokens, rfl⟩
  | error failure =>
    rw [found] at read
    cases read

theorem ofRuns_of_error {runs : List (Run Char)} {lexemes : List Lexeme}
    (read : Lexeme.ofRuns runs = .ok lexemes) {position : Nat} {run : Run Char} {failure : Failure}
    (failed : Lexeme.ofRun (position + byteLength (runs.flatMap Run.toList)) run = .error failure)
    (later : List (Run Char)) : ofRuns position (runs ++ run :: later) = .error failure := by
  obtain ⟨tokens, found⟩ := exists_ofRuns read position
  rw [ofRuns_append, found, ofRuns, failed]
  rfl

end Token

end Keypad
