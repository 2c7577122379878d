import Mathlib.Data.List.Chain
import Keypad.Evaluation
import Keypad.Proofs.Token.Composition

/-!
# Texts that are canonical already

A text stays as it is exactly if it has no display symbol and no missing multiplication sign
(`canonicalChars_eq_self_iff`). What making a text canonical gives is such a text, whatever the text
was, so that doing it twice is doing it once (`ofText_ofText`).
-/

namespace Keypad.Canonical

/-- A text with no display symbol, in which every multiplication sign is written. -/
structure IsCanonical (text : List Char) : Prop where
  symbols : ∀ c ∈ text, c ≠ '÷' ∧ c ≠ '×' ∧ c ≠ '\u2212' ∧ c ≠ 'π'
  coefficients : ∀ before left right after, text = before ++ left :: right :: after →
    left.isDigit = true → right.isAlpha = false
  groups : ∀ before right after, text = before ++ ')' :: right :: after →
    right.isDigit = false ∧ right.isAlpha = false

/-- A text in which no character is respelled and no two neighbours multiply. -/
structure Settled (text : List Char) : Prop where
  spelled : ∀ c ∈ text, spell c = [c]
  apart : text.IsChain fun left right => multiplies left right = false

/-! ## Canonical text is settled -/

theorem Settled.append {front back : List Char} (settled : Settled front) (later : Settled back)
    (apart : ∀ last ∈ front.getLast?, ∀ next ∈ back.head?, multiplies last next = false) :
    Settled (front ++ back) := by
  constructor
  · intro c member
    obtain inFront | inBack := List.mem_append.mp member
    · exact settled.spelled c inFront
    · exact later.spelled c inBack
  · exact List.isChain_append.mpr ⟨settled.apart, later.apart, apart⟩

theorem spell_edge (c : Char) : spell (edge c) = [edge c] := by
  unfold edge
  split
  next => rfl
  next other =>
    obtain ⟨-, same⟩ | ⟨-, same⟩ | ⟨-, same⟩ | same := asciiSymbol_cases c
    · rw [same]; rfl
    · rw [same]; rfl
    · rw [same]; rfl
    · rw [same, spell_of_ne other, same]

theorem edge_ne_pi (c : Char) : edge c ≠ 'π' := by
  intro isPi
  have spelled := spell_edge c
  rw [isPi] at spelled
  exact absurd spelled (by decide)

/-- The characters at a boundary multiply only if the typed ones do. -/
theorem multiplies_edge {left right : Char} (apart : multiplies left right = false) :
    multiplies (edge left) (edge right) = false := by
  rw [← multiplies_eq, Bool.or_eq_false_iff, Bool.or_eq_false_iff] at apart
  obtain ⟨⟨-, coefficient⟩, group⟩ := apart
  have leftPlain := beq_eq_false_iff_ne.mpr (edge_ne_pi left)
  have rightPlain := beq_eq_false_iff_ne.mpr (edge_ne_pi right)
  simp only [coefficientBeforeWord, groupBeforeOperand] at coefficient group
  simp [multiplies, touchesPi, leftPlain, rightPlain, coefficient, group]

theorem getLast?_spell (c : Char) : (spell c).getLast? = some (edge c) := by
  obtain ⟨front, split⟩ := spell_eq_append_edge c
  rw [split, List.getLast?_concat]

theorem settled_spell (c : Char) : Settled (spell c) := by
  by_cases isPi : c = 'π'
  · have checked : piNumeral.all (fun digit => spell digit == [digit]) = true := by decide
    rw [isPi]
    constructor
    · intro digit member
      exact eq_of_beq (List.all_eq_true.mp checked digit member)
    · decide
  · have single : spell c = [edge c] := by simp [spell_of_ne isPi, edge, isPi]
    rw [single]
    constructor
    · simp [spell_edge]
    · exact List.isChain_singleton _

theorem settled_sign (multiplied : Bool) : Settled (sign multiplied) := by
  cases multiplied with
  | true => exact settled_spell '*'
  | false => exact ⟨by simp [sign], List.isChain_nil⟩

theorem settled_canonicalChars (text : List Char) : Settled (canonicalChars text) := by
  rw [canonicalChars_eq_respell]
  induction text with
  | nil => exact settled_sign false
  | cons left later inductionHypothesis =>
    cases later with
    | nil => exact settled_spell left
    | cons right later =>
      have first : (respell (right :: later)).head? = some (edge right) := by
        rw [← canonicalChars_eq_respell, head?_canonicalChars]
        rfl
      rw [respell_cons_cons]
      cases multiplied : multiplies left right with
      | true =>
        have star : isOperandChar '*' = false := by decide
        have before := (settled_spell left).append (settled_sign true) (by
          simp [sign, multiplies_sign_right star])
        exact before.append inductionHypothesis (by
          simp [sign, multiplies_sign_left star (show '*' ≠ ')' by decide)])
      | false =>
        have boundary := multiplies_edge multiplied
        simp only [sign, Bool.false_eq_true, if_false, List.append_nil]
        exact (settled_spell left).append inductionHypothesis (by
          simp [getLast?_spell, first, boundary])

/-! ## What settled texts are -/

theorem canonicalChars_of_settled {text : List Char} (settled : Settled text) :
    canonicalChars text = text := by
  apply canonicalChars_eq_self settled.spelled
  intro before left right after same
  exact List.isChain_iff_forall_rel_of_append_cons_cons.mp settled.apart same

theorem spell_eq_self_iff (c : Char) :
    spell c = [c] ↔ c ≠ '÷' ∧ c ≠ '×' ∧ c ≠ '\u2212' ∧ c ≠ 'π' := by
  constructor
  · intro same
    have plain : ∀ symbol, spell symbol ≠ [symbol] → c ≠ symbol := by
      rintro symbol changes rfl
      exact changes same
    exact ⟨plain _ (by decide), plain _ (by decide), plain _ (by decide), plain _ (by decide)⟩
  · rintro ⟨notDivision, notMultiplication, notMinus, notPi⟩
    simp [spell_of_ne notPi, asciiSymbol, notDivision, notMultiplication, notMinus]

theorem multiplies_of_ne_pi {left right : Char} (leftPlain : left ≠ 'π') (rightPlain : right ≠ 'π') :
    multiplies left right = false ↔
      (left.isDigit = true → right.isAlpha = false) ∧
        (left = ')' → right.isDigit = false ∧ right.isAlpha = false) := by
  simp [multiplies, touchesPi, leftPlain, rightPlain]

theorem settled_iff (text : List Char) : Settled text ↔ IsCanonical text := by
  constructor
  · intro settled
    have symbols : ∀ c ∈ text, c ≠ '÷' ∧ c ≠ '×' ∧ c ≠ '\u2212' ∧ c ≠ 'π' :=
      fun c member => (spell_eq_self_iff c).mp (settled.spelled c member)
    have neighbours : ∀ before left right after, text = before ++ left :: right :: after →
        (left.isDigit = true → right.isAlpha = false) ∧
          (left = ')' → right.isDigit = false ∧ right.isAlpha = false) := by
      intro before left right after same
      have leftPlain := (symbols left (by simp [same])).2.2.2
      have rightPlain := (symbols right (by simp [same])).2.2.2
      rw [← multiplies_of_ne_pi leftPlain rightPlain]
      exact List.isChain_iff_forall_rel_of_append_cons_cons.mp settled.apart same
    constructor
    · exact symbols
    · intro before left right after same
      exact (neighbours before left right after same).1
    · intro before right after same
      exact (neighbours before ')' right after same).2 rfl
  · intro canonical
    constructor
    · intro c member
      exact (spell_eq_self_iff c).mpr (canonical.symbols c member)
    · rw [List.isChain_iff_forall_rel_of_append_cons_cons]
      intro left right before after same
      have leftPlain := (canonical.symbols left (by simp [same])).2.2.2
      have rightPlain := (canonical.symbols right (by simp [same])).2.2.2
      rw [multiplies_of_ne_pi leftPlain rightPlain]
      constructor
      · exact canonical.coefficients before left right after same
      · rintro rfl
        exact canonical.groups before right after same

theorem canonicalChars_eq_self_iff (text : List Char) :
    canonicalChars text = text ↔ IsCanonical text := by
  rw [← settled_iff]
  constructor
  · intro same
    rw [← same]
    exact settled_canonicalChars text
  · exact canonicalChars_of_settled

/-- Canonical text is its own canonical text, so it has the value or the failure of the typed text,
    at the same position. The texts that stay as they are have nothing to be respelled and no sign
    to be added. -/
theorem ofText_ofText (text : String) :
    ofText (ofText text) = ofText text ∧
      Evaluation.ofText (ofText text) = Evaluation.ofText text ∧
      (ofText text = text ↔ IsCanonical text.toList) := by
  have again : ofText (ofText text) = ofText text := by
    simp [ofText, canonicalChars_of_settled (settled_canonicalChars text.toList)]
  constructor
  · exact again
  · constructor
    · rw [Evaluation.ofText, again, Evaluation.ofText]
    · rw [← canonicalChars_eq_self_iff, ofText, ← String.toList_inj, String.toList_ofList]

end Keypad.Canonical
