import Keypad.Proofs.Display.Recalculation
import Keypad.Proofs.Number.Notation

/-!
# Numbers read back from the display

The text that the display shows for a number is decoded by evaluating it, for finite numbers as that
number (`exists_ofText_write`). So numbers that are not equal are shown by different texts
(`write_eq_iff`).
-/

namespace Keypad

open Number (Style)

namespace Evaluation

/-- The text of a finite number has its value, but the sign of zero is lost. -/
theorem ofText_of_write {number : Float} (finite : number.isFinite = true) :
    (number ≠ -0 → ofText (Style.display.write number) = .ok number) ∧
      (number = -0 → ofText (Style.display.write number) = .ok 0) := by
  constructor
  · intro zero
    exact ofText_of_reading (evaluate_write finite zero)
  · rintro rfl
    exact ok_of_toOption (by decide +kernel)

theorem exists_ofText_write {number : Float} (finite : number.isFinite = true) :
    ∃ value, ofText (Style.display.write number) = .ok value ∧
      (number = value ∨ Binary64.ofFloat number = 0 ∧ Binary64.ofFloat value = 0) := by
  obtain ⟨same, zero⟩ := ofText_of_write finite
  by_cases negativeZero : number = -0
  · refine ⟨0, zero negativeZero, .inr ?_⟩
    rw [negativeZero]
    decide
  · exact ⟨number, same negativeZero, .inl rfl⟩

end Evaluation

namespace Number

theorem write_of_ordered {number : Float} (ordered : number.isNaN = false)
    (infinite : number.isFinite = false) :
    Style.display.write number =
      if Binary64.signBit number then "-Infinity" else "Infinity" := by
  have magnitude := Binary64.ofFloat_eq_infinity ordered infinite
  rw [Style.write, ordered, magnitude]
  cases Binary64.signBit number <;> rfl

/-- Beyond the finite numbers the text tells NaN and the two infinities apart. -/
theorem eq_of_write_eq_of_infinite {number other : Float} (infinite : number.isFinite = false)
    (otherInfinite : other.isFinite = false)
    (same : Style.display.write number = Style.display.write other) :
    number.isNaN = false ∧ number = other ∨ number.isNaN = true ∧ other.isNaN = true := by
  have written {undefined : Float} (isNaN : undefined.isNaN = true) :
      Style.display.write undefined = "NaN" := by
    rw [Style.write, if_pos isNaN]
  cases ordered : number.isNaN with
  | true =>
    cases otherOrdered : other.isNaN with
    | true => exact .inr ⟨rfl, rfl⟩
    | false =>
      rw [written ordered, write_of_ordered otherOrdered otherInfinite] at same
      split at same <;> exact absurd same (by decide)
  | false =>
    rw [write_of_ordered ordered infinite] at same
    cases otherOrdered : other.isNaN with
    | true =>
      rw [written otherOrdered] at same
      split at same <;> exact absurd same (by decide)
    | false =>
      rw [write_of_ordered otherOrdered otherInfinite] at same
      have magnitudes : Binary64.ofFloat number = Binary64.ofFloat other := by
        rw [Binary64.ofFloat_eq_infinity ordered infinite,
          Binary64.ofFloat_eq_infinity otherOrdered otherInfinite]
      refine .inl ⟨rfl, Binary64.eq_of_ofFloat_eq ?_ magnitudes⟩
      cases sign : Binary64.signBit number <;> cases otherSign : Binary64.signBit other <;>
        simp_all

theorem write_ne {number other : Float} (finite : number.isFinite = true)
    (infinite : other.isFinite = false) :
    Style.display.write number ≠ Style.display.write other := by
  intro same
  have valued := Evaluation.shown_write finite
  obtain ⟨name, -, failed⟩ := Evaluation.shown_of_infinite infinite
  rw [same, failed] at valued
  cases valued

/-- Finite numbers with the same text have the same value, hence are the same or both zeros. -/
theorem eq_of_write_eq_of_finite {number other : Float} (finite : number.isFinite = true)
    (otherFinite : other.isFinite = true)
    (same : Style.display.write number = Style.display.write other) :
    number = other ∨ Binary64.ofFloat number = 0 ∧ Binary64.ofFloat other = 0 := by
  obtain ⟨value, valued, kept⟩ := Evaluation.exists_ofText_write finite
  obtain ⟨otherValue, otherValued, otherKept⟩ := Evaluation.exists_ofText_write otherFinite
  rw [same, otherValued] at valued
  cases valued
  obtain rfl | ⟨zero, valueZero⟩ := kept
  · obtain rfl | ⟨otherZero, isZero⟩ := otherKept
    · exact .inl rfl
    · exact .inr ⟨isZero, otherZero⟩
  · obtain rfl | ⟨otherZero, -⟩ := otherKept
    · exact .inr ⟨zero, valueZero⟩
    · exact .inr ⟨zero, otherZero⟩

theorem write_eq_iff (number other : Float) :
    Style.display.write number = Style.display.write other ↔
      (number == other) = true ∨ number.isNaN = true ∧ other.isNaN = true := by
  rw [Binary64.beq_iff]
  constructor
  · intro same
    cases finite : number.isFinite with
    | true =>
      cases otherFinite : other.isFinite with
      | true =>
        exact .inl ⟨Binary64.isNaN_of_isFinite finite,
          eq_of_write_eq_of_finite finite otherFinite same⟩
      | false => exact absurd same (write_ne finite otherFinite)
    | false =>
      cases otherFinite : other.isFinite with
      | true => exact absurd same.symm (write_ne otherFinite finite)
      | false =>
        obtain ⟨ordered, equal⟩ | undefined :=
          eq_of_write_eq_of_infinite finite otherFinite same
        · exact .inl ⟨ordered, .inl equal⟩
        · exact .inr undefined
  · rintro (⟨-, rfl | ⟨zero, otherZero⟩⟩ | ⟨undefined, otherUndefined⟩)
    · rfl
    · rw [write_of_zero zero, write_of_zero otherZero]
    · rw [Style.write, Style.write, if_pos undefined, if_pos otherUndefined]

/-- A finite number is shown in plain notation, with a point exactly if it is no integer and a sign
    exactly if it is below zero. The text is canonical and has the value of the number, where negative
    zero becomes zero. Any two numbers have the same text exactly if they are equal or both NaN. -/
theorem shown_number_decodes :
    (∀ number : Float, number.isFinite = true →
      Decimal.Plain (Style.display.write number).toList ∧
      ('.' ∈ (Style.display.write number).toList ↔ ¬ Binary64.IsIntegral number) ∧
      ('-' ∈ (Style.display.write number).toList ↔ number < 0) ∧
      Canonical.ofText (Style.display.write number) = Style.display.write number ∧
      (number ≠ -0 → Evaluation.ofText (Style.display.write number) = .ok number) ∧
      (number = -0 → Evaluation.ofText (Style.display.write number) = .ok 0)) ∧
    ∀ number other : Float,
      Style.display.write number = Style.display.write other ↔
        (number == other) = true ∨ number.isNaN = true ∧ other.isNaN = true := by
  refine ⟨fun number finite => ⟨plain_write finite, point_mem_write finite, sign_mem_write finite, ?_,
    Evaluation.ofText_of_write finite⟩, write_eq_iff⟩
  rw [Canonical.ofText, canonicalChars_write finite, String.ofList_toList]

/-- A fraction below zero, and the two zeros, which share a text. -/
theorem shown_number_decodes_of_negativeEighth :
    (-0.125 : Float).isFinite = true ∧ (-0.125 : Float) ≠ -0 ∧
      '.' ∈ "-0.125".toList ∧ ¬ Binary64.IsIntegral (-0.125) ∧ (-0.125 : Float) < 0 ∧
      Evaluation.ofText "-0.125" = .ok (-0.125) ∧
      (-0 : Float).isFinite = true ∧ Evaluation.ofText (Style.display.write (-0)) = .ok 0 ∧
      Style.display.write (-0) = Style.display.write 0 := by
  have written : Style.display.write (-0.125) = "-0.125" := by decide +kernel
  have finite : (-0.125 : Float).isFinite = true := by decide +kernel
  have nonzero : (-0.125 : Float) ≠ -0 := by decide +kernel
  have zeroFinite : (-0 : Float).isFinite = true := by decide +kernel
  have zeros : ((-0 : Float) == 0) = true := by decide +kernel
  obtain ⟨-, point, sign, -, valued, -⟩ := shown_number_decodes.1 (-0.125) finite
  obtain ⟨-, -, -, -, -, zero⟩ := shown_number_decodes.1 (-0) zeroFinite
  rw [written] at point sign valued
  have pointed : '.' ∈ "-0.125".toList := by decide
  exact ⟨finite, nonzero, pointed, point.mp pointed, sign.mp (by decide), valued nonzero, zeroFinite,
    zero rfl, (shown_number_decodes.2 (-0) 0).mpr (.inl zeros)⟩

end Number

end Keypad
