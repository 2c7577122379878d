import Keypad.Formula
import Keypad.Proofs.Evaluation.Position
import Keypad.Proofs.Number.ReadBack
import Keypad.Proofs.Postfix.Derivation

/-!
# Formulas read back

The text of a formula evaluates as the formula does (`ofText_write`), although it has no more
parentheses than the levels of its operands require. Every part of the text that stands between
signs reads as the lexeme it was written for, and the lexemes are a phrase at the level of the
formula.
-/

namespace Keypad

namespace Expression

theorem Derives.loosen {level looser : Level} {bare : Bool} {phrase : List Lexeme}
    {tree : Expression} (derived : Derives level bare phrase tree)
    (lower : looser.rank ≤ level.rank) : Derives looser bare phrase tree := by
  cases level with
  | sum =>
    cases looser with
    | sum => exact derived
    | _ => exact absurd lower (by decide)
  | product =>
    cases looser with
    | sum => exact .ofProduct derived
    | product => exact derived
    | _ => exact absurd lower (by decide)
  | sign =>
    cases looser with
    | sum => exact .ofProduct (.ofSign derived)
    | product => exact .ofSign derived
    | sign => exact derived
    | _ => exact absurd lower (by decide)
  | power =>
    cases looser with
    | sum => exact .ofProduct (.ofSign (.ofPower derived))
    | product => exact .ofSign (.ofPower derived)
    | sign => exact .ofPower derived
    | power => exact derived
    | atom => exact absurd lower (by decide)
  | atom =>
    cases looser with
    | sum => exact .ofProduct (.ofSign (.ofPower (.ofAtom derived)))
    | product => exact .ofSign (.ofPower (.ofAtom derived))
    | sign => exact .ofPower (.ofAtom derived)
    | power => exact .ofAtom derived
    | atom => exact derived

end Expression

namespace Formula

open Expression (Derives Level)

/-- Whether all literals are finite and have no sign. -/
def unsigned : Formula → Bool
  | number value => value.isFinite && !Binary64.signBit value
  | pi => true
  | negate _ operand => operand.unsigned
  | binary _ _ left right => left.unsigned && right.unsigned
  | call _ argument => argument.unsigned

/-- The text reads as a phrase of the level, and the phrase has the tree. -/
def ReadsAs (level : Level) (text : List Char) (tree : Expression) : Prop :=
  ∃ phrase, Lexeme.reading text = .ok phrase ∧ Derives level false phrase tree

theorem readsAs_number {value : Float} (finite : value.isFinite = true)
    (positive : Binary64.signBit value = false) :
    ReadsAs .atom (Number.Style.listing.write value).toList (.number value) :=
  ⟨[.number value], Number.reading_write_of_positive .listing finite positive, .number value⟩

theorem readsAs_pi : ReadsAs .atom ['π'] (.number piValue) := by
  refine ⟨[.number piValue], ?_, .number piValue⟩
  have numeral : ∀ c ∈ Canonical.piNumeral, Decimal.isNumeralChar c = true :=
    List.all_eq_true.mp rfl
  have spelled : Lexeme.reading ['π'] = Lexeme.reading Canonical.piNumeral := by
    rw [Lexeme.reading, Lexeme.reading, Canonical.canonicalChars_numeral numeral]
    rfl
  rw [spelled]
  exact Lexeme.reading_numeral (by decide) numeral rfl

theorem ReadsAs.enclose {text : List Char} {tree : Expression} (reads : ReadsAs .sum text tree) :
    ReadsAs .atom ('(' :: text ++ [')']) tree := by
  obtain ⟨phrase, read, derived⟩ := reads
  exact ⟨.leftParen :: phrase ++ [.rightParen], Lexeme.reading_enclosed read, .group derived⟩

theorem ReadsAs.loosen {level looser : Level} {text : List Char} {tree : Expression}
    (reads : ReadsAs level text tree) (lower : looser.rank ≤ level.rank) :
    ReadsAs looser text tree := by
  obtain ⟨phrase, read, derived⟩ := reads
  exact ⟨phrase, read, derived.loosen lower⟩

theorem ReadsAs.bracket {required own : Level} {text : List Char} {tree : Expression}
    (reads : ReadsAs own text tree) :
    ReadsAs required (bracket required own text) tree := by
  rw [Formula.bracket]
  split
  next fits => exact reads.loosen fits
  next tighter =>
    apply (ReadsAs.enclose (reads.loosen (Nat.zero_le _))).loosen
    cases required <;> decide

theorem ReadsAs.negate {text : List Char} {tree : Expression} (reads : ReadsAs .sign text tree)
    (spelling : Spelling) :
    ReadsAs .sign (Operation.subtract.symbol spelling :: text) (.negate tree) := by
  obtain ⟨phrase, read, derived⟩ := reads
  refine ⟨.operator .subtract :: phrase, ?_, .negate derived⟩
  cases spelling <;> rw [Lexeme.reading_cons_sign rfl (by decide), read] <;> rfl

/-- An operator cuts the text in two, whatever stands on either side. -/
theorem reading_operator (operation : Operation) (spelling : Spelling) (left right : List Char) :
    Lexeme.reading (left ++ operation.symbol spelling :: right) = do
      let leftPhrase ← Lexeme.reading left
      let rightPhrase ← Lexeme.reading right
      return leftPhrase ++ .operator operation.operator :: rightPhrase := by
  have apart : Canonical.isOperandChar (operation.symbol spelling) = false := by
    cases operation <;> cases spelling <;> rfl
  have opens : operation.symbol spelling ≠ ')' := by
    cases operation <;> cases spelling <;> decide
  have symbol : Lexeme.ofRun 0 ⟨Canonical.asciiSymbol (operation.symbol spelling), []⟩ =
      .ok (.operator operation.operator) := by
    cases operation <;> cases spelling <;> rfl
  rw [Lexeme.reading_append_sign apart, Lexeme.reading_cons_sign apart opens, symbol]
  change (Lexeme.reading left >>= fun leftPhrase =>
    ((Lexeme.reading right >>= fun rightPhrase => pure (_ :: rightPhrase)) >>= fun rest =>
      pure (leftPhrase ++ rest))) = _
  simp only [bind_assoc, pure_bind]

theorem ReadsAs.binary {operation : Operation} (spelling : Spelling) {left right : List Char}
    {leftTree rightTree : Expression} (leftReads : ReadsAs operation.leftLevel left leftTree)
    (rightReads : ReadsAs operation.rightLevel right rightTree) :
    ReadsAs operation.level (left ++ operation.symbol spelling :: right)
      (.binary operation.operator leftTree rightTree) := by
  obtain ⟨leftPhrase, leftRead, leftDerived⟩ := leftReads
  obtain ⟨rightPhrase, rightRead, rightDerived⟩ := rightReads
  refine ⟨leftPhrase ++ .operator operation.operator :: rightPhrase, ?_, ?_⟩
  · rw [reading_operator, leftRead, rightRead]
    rfl
  · cases operation with
    | add => exact .add (.inl rfl) leftDerived rightDerived
    | subtract => exact .add (.inr rfl) leftDerived rightDerived
    | multiply => exact .multiply (.inl rfl) leftDerived rightDerived
    | divide => exact .multiply (.inr rfl) leftDerived rightDerived
    | power => exact .raise leftDerived rightDerived

theorem ReadsAs.call {text : List Char} {tree : Expression} (reads : ReadsAs .sum text tree)
    (f : UnaryFunction) : ReadsAs .atom (f.name.toList ++ '(' :: text ++ [')']) (.call f tree) := by
  obtain ⟨phrase, read, derived⟩ := reads
  have nonempty : f.name.toList ≠ [] := by cases f <;> decide
  have letters : ∀ c ∈ f.name.toList, c.isAlpha = true := by
    cases f <;> exact List.all_eq_true.mp rfl
  refine ⟨.word f.name :: .leftParen :: phrase ++ [.rightParen], ?_, .call f derived⟩
  rw [Lexeme.reading_append_sign rfl, Lexeme.reading_append_sign rfl,
    Lexeme.reading_word nonempty letters, Lexeme.reading_cons_sign rfl (by decide), read,
    String.ofList_toList]
  rfl

theorem readsAs_write {formula : Formula} (unsigned : formula.unsigned = true) :
    ReadsAs formula.level formula.write formula.toExpression := by
  induction formula with
  | number value =>
    rw [Formula.unsigned, Bool.and_eq_true, Bool.not_eq_true'] at unsigned
    exact readsAs_number unsigned.1 unsigned.2
  | pi => exact readsAs_pi
  | negate spelling operand operandReads =>
    exact (operandReads unsigned).bracket.negate spelling
  | binary operation spelling left right leftReads rightReads =>
    rw [Formula.unsigned, Bool.and_eq_true] at unsigned
    exact .binary spelling (leftReads unsigned.1).bracket (rightReads unsigned.2).bracket
  | call f argument argumentReads =>
    exact ReadsAs.call ((argumentReads unsigned).loosen (Nat.zero_le _)) f

end Formula

namespace Evaluation

theorem ofText_of_readsAs {text : String} {tree : Expression}
    (reads : Formula.ReadsAs .sum text.toList tree) : ofText text = tree.evaluate := by
  obtain ⟨phrase, read, derived⟩ := reads
  rw [← Lexeme.withoutPosition_scan] at read
  cases scanned : Token.scan (Canonical.ofText text) with
  | error failure =>
    rw [scanned] at read
    cases read
  | ok tokens =>
    rw [scanned] at read
    cases read
    rw [ofText, scanned]
    change ofTokens tokens = _
    rw [ofTokens, Expression.items_of_derives derived]
    exact tree.evaluate_postorder

/-- The text of a formula evaluates as its tree, and fails only where an operation or a function
    does. -/
theorem ofText_write {formula : Formula} (unsigned : formula.unsigned = true) :
    ofText (String.ofList formula.write) = formula.toExpression.evaluate ∧
      ∀ failure, ofText (String.ofList formula.write) = .error failure →
        failure.kind = .divisionByZero ∨ failure.kind = .domainError := by
  have evaluated : ofText (String.ofList formula.write) = formula.toExpression.evaluate := by
    apply ofText_of_readsAs
    rw [String.toList_ofList]
    exact (Formula.readsAs_write unsigned).loosen (Nat.zero_le _)
  refine ⟨evaluated, fun failure failed => ?_⟩
  rw [evaluated] at failed
  exact Expression.kind_of_evaluate failed

/-- The formula for `2×−(3+π)^−sin(1−2)/0`, in which a negation stands under a power and a power
    under a negation. -/
def quotientByZero : Formula :=
  .binary .divide .ascii
    (.binary .multiply .keypad (.number 2)
      (.negate .keypad (.binary .power .ascii (.binary .add .ascii (.number 3) .pi)
        (.negate .keypad (.call .sin (.binary .subtract .keypad (.number 1) (.number 2)))))))
    (.number 0)

theorem ofText_write_of_quotientByZero :
    quotientByZero.unsigned = true ∧
      ofText (String.ofList quotientByZero.write) = quotientByZero.toExpression.evaluate ∧
      ∀ failure, ofText (String.ofList quotientByZero.write) = .error failure →
        failure.kind = .divisionByZero ∨ failure.kind = .domainError := by
  have unsigned : quotientByZero.unsigned = true := by decide
  exact ⟨unsigned, ofText_write unsigned⟩

end Evaluation

end Keypad
