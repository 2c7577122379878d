import Keypad.Canonical

/-!
# Canonical text is local

The passes that make a text canonical come to one: every character is spelled by itself, and a `*`
stands between two neighbours exactly if they multiply (`canonicalChars_eq_respell`). So a text can
be made canonical piece by piece wherever no two neighbours multiply, in particular in front of
every sign (`canonicalChars_append_sign`).
-/

namespace Keypad.Canonical

/-- The canonical spelling of one character. -/
def spell (c : Char) : List Char :=
  spellPi (asciiSymbol c)

/-- Whether two neighbours of a typed text multiply. -/
def multiplies (left right : Char) : Bool :=
  touchesPi left right || ((left.isDigit || left == 'π') && right.isAlpha) ||
    (left == ')' && (right.isDigit || right.isAlpha || right == 'π'))

def sign (multiplied : Bool) : List Char :=
  if multiplied then ['*'] else []

/-- Spells every character by itself, with a `*` between neighbours that multiply. -/
def respell : List Char → List Char
  | [] => []
  | [last] => spell last
  | left :: right :: later =>
    spell left ++ sign (multiplies left right) ++ respell (right :: later)

theorem respell_cons_cons (left right : Char) (later : List Char) :
    respell (left :: right :: later) =
      spell left ++ sign (multiplies left right) ++ respell (right :: later) := rfl

/-! ## One pass -/

theorem multiplyBetween_cons_cons (test : Char → Char → Bool) (left right : Char)
    (later : List Char) :
    multiplyBetween test (left :: right :: later) =
      left :: sign (test left right) ++ multiplyBetween test (right :: later) := by
  rw [multiplyBetween]
  split
  next holds =>
    rw [holds]
    rfl
  next fails =>
    rw [Bool.not_eq_true] at fails
    rw [fails]
    rfl

theorem head_multiplyBetween (test : Char → Char → Bool) (first : Char) (later : List Char) :
    ∃ rest, multiplyBetween test (first :: later) = first :: rest := by
  cases later with
  | nil => exact ⟨[], rfl⟩
  | cons second later => exact ⟨_, multiplyBetween_cons_cons test first second later⟩

theorem multiplyBetween_append (test : Char → Char → Bool) (front : List Char)
    (last next : Char) (back : List Char) :
    multiplyBetween test (front ++ last :: next :: back) =
      multiplyBetween test (front ++ [last]) ++ sign (test last next) ++
        multiplyBetween test (next :: back) := by
  induction front with
  | nil => exact multiplyBetween_cons_cons test last next back
  | cons first front inductionHypothesis =>
    cases front with
    | nil =>
      simp only [List.cons_append, List.nil_append] at inductionHypothesis ⊢
      rw [multiplyBetween_cons_cons, inductionHypothesis, multiplyBetween_cons_cons]
      simp
    | cons second front =>
      simp only [List.cons_append] at inductionHypothesis ⊢
      rw [multiplyBetween_cons_cons, inductionHypothesis, multiplyBetween_cons_cons]
      simp

/-- The first and the last character that a character is spelled with. The numeral of π begins and
    ends with the same digit. -/
def edge (c : Char) : Char :=
  if c = 'π' then '3' else asciiSymbol c

theorem asciiSymbol_cases (c : Char) :
    (c = '÷' ∧ asciiSymbol c = '/') ∨ (c = '×' ∧ asciiSymbol c = '*') ∨
      (c = '−' ∧ asciiSymbol c = '-') ∨ asciiSymbol c = c := by
  unfold asciiSymbol
  grind

theorem isNumeralChar_asciiSymbol (c : Char) :
    Decimal.isNumeralChar (asciiSymbol c) = Decimal.isNumeralChar c := by
  obtain ⟨rfl, same⟩ | ⟨rfl, same⟩ | ⟨rfl, same⟩ | same := asciiSymbol_cases c <;> rw [same] <;> rfl

theorem asciiSymbol_beq_pi (c : Char) : (asciiSymbol c == 'π') = (c == 'π') := by
  obtain ⟨rfl, same⟩ | ⟨rfl, same⟩ | ⟨rfl, same⟩ | same := asciiSymbol_cases c <;> rw [same] <;> rfl

theorem isDigit_asciiSymbol (c : Char) : (asciiSymbol c).isDigit = c.isDigit := by
  obtain ⟨rfl, same⟩ | ⟨rfl, same⟩ | ⟨rfl, same⟩ | same := asciiSymbol_cases c <;> rw [same] <;> rfl

theorem isAlpha_asciiSymbol (c : Char) : (asciiSymbol c).isAlpha = c.isAlpha := by
  obtain ⟨rfl, same⟩ | ⟨rfl, same⟩ | ⟨rfl, same⟩ | same := asciiSymbol_cases c <;> rw [same] <;> rfl

theorem asciiSymbol_beq_closing (c : Char) : (asciiSymbol c == ')') = (c == ')') := by
  obtain ⟨rfl, same⟩ | ⟨rfl, same⟩ | ⟨rfl, same⟩ | same := asciiSymbol_cases c <;> rw [same] <;> rfl

theorem isDigit_edge (c : Char) : (edge c).isDigit = (c.isDigit || c == 'π') := by
  unfold edge
  split
  next isPi =>
    rw [isPi]
    rfl
  next other => rw [isDigit_asciiSymbol, beq_eq_false_iff_ne.mpr other, Bool.or_false]

theorem isAlpha_edge (c : Char) : (edge c).isAlpha = c.isAlpha := by
  unfold edge
  split
  next isPi =>
    rw [isPi]
    rfl
  next other => exact isAlpha_asciiSymbol c

theorem edge_beq_closing (c : Char) : (edge c == ')') = (c == ')') := by
  unfold edge
  split
  next isPi =>
    rw [isPi]
    rfl
  next other => exact asciiSymbol_beq_closing c

theorem multiplies_eq (left right : Char) :
    (touchesPi (asciiSymbol left) (asciiSymbol right) ||
      coefficientBeforeWord (edge left) (edge right) ||
      groupBeforeOperand (edge left) (edge right)) = multiplies left right := by
  simp only [touchesPi, coefficientBeforeWord, groupBeforeOperand, multiplies,
    isNumeralChar_asciiSymbol, asciiSymbol_beq_pi, isDigit_edge, isAlpha_edge, edge_beq_closing,
    Bool.or_right_comm]

theorem spell_of_ne {c : Char} (other : c ≠ 'π') : spell c = [asciiSymbol c] := by
  have kept : asciiSymbol c ≠ 'π' := by
    rw [← beq_eq_false_iff_ne, asciiSymbol_beq_pi, beq_eq_false_iff_ne]
    exact other
  rw [spell, spellPi, if_neg kept]

theorem spell_eq_append_edge (c : Char) : ∃ front, spell c = front ++ [edge c] := by
  by_cases isPi : c = 'π'
  · rw [isPi]
    exact ⟨"3.14159265358979".toList, rfl⟩
  · rw [spell_of_ne isPi, edge, if_neg isPi]
    exact ⟨[], rfl⟩

theorem spell_eq_edge_cons (c : Char) : ∃ rest, spell c = edge c :: rest := by
  by_cases isPi : c = 'π'
  · rw [isPi]
    exact ⟨".141592653589793".toList, rfl⟩
  · rw [spell_of_ne isPi, edge, if_neg isPi]
    exact ⟨[], rfl⟩

/-- A test of neighbours that lets no `*` in beside another one, nor into the numeral of π. -/
structure Sparing (test : Char → Char → Bool) : Prop where
  beforeSign : ∀ c, test c '*' = false
  behindSign : ∀ c, test '*' c = false
  withinPi : multiplyBetween test piNumeral = piNumeral

theorem sparing_coefficientBeforeWord : Sparing coefficientBeforeWord :=
  ⟨fun _ => Bool.and_false _, fun _ => rfl, rfl⟩

theorem sparing_groupBeforeOperand : Sparing groupBeforeOperand :=
  ⟨fun _ => Bool.and_false _, fun _ => rfl, rfl⟩

theorem Sparing.spell {test : Char → Char → Bool} (sparing : Sparing test) (c : Char) :
    multiplyBetween test (spell c) = spell c := by
  by_cases isPi : c = 'π'
  · rw [isPi]
    exact sparing.withinPi
  · rw [spell_of_ne isPi]
    rfl

theorem Sparing.pass {test : Char → Char → Bool} (sparing : Sparing test) (c : Char)
    (multiplied : Bool) (next : Char) (back : List Char) :
    multiplyBetween test (Canonical.spell c ++ sign multiplied ++ next :: back) =
      Canonical.spell c ++ sign (multiplied || test (edge c) next) ++
        multiplyBetween test (next :: back) := by
  have spelled := sparing.spell c
  obtain ⟨front, split⟩ := spell_eq_append_edge c
  rw [split] at spelled ⊢
  cases multiplied with
  | false =>
    simp only [sign, Bool.false_eq_true, if_false, List.append_nil, List.append_assoc,
      List.cons_append, List.nil_append, Bool.false_or]
    rw [multiplyBetween_append, spelled]
    simp [sign]
  | true =>
    -- The test sees the `*` of an earlier pass twice, and both times lets it be.
    simp only [sign, if_true, List.append_assoc, List.cons_append, List.nil_append, Bool.true_or]
    rw [multiplyBetween_append, spelled, multiplyBetween_cons_cons, sparing.beforeSign,
      sparing.behindSign]
    simp [sign]

def factors (text : List Char) : List Char :=
  (multiplyBetween touchesPi (text.map asciiSymbol)).flatMap spellPi

theorem factors_cons_cons (left right : Char) (later : List Char) :
    factors (left :: right :: later) =
      spell left ++ sign (touchesPi (asciiSymbol left) (asciiSymbol right)) ++
        factors (right :: later) := by
  simp only [factors, List.map_cons]
  rw [multiplyBetween_cons_cons, List.flatMap_append, List.flatMap_cons]
  congr 2
  unfold sign
  split <;> rfl

theorem head_factors (first : Char) (later : List Char) :
    ∃ rest, factors (first :: later) = edge first :: rest := by
  obtain ⟨back, spelled⟩ := spell_eq_edge_cons first
  cases later with
  | nil =>
    refine ⟨back, ?_⟩
    rw [← spelled]
    exact List.append_nil _
  | cons second later =>
    rw [factors_cons_cons, spelled]
    exact ⟨_, rfl⟩

theorem canonicalChars_eq_respell (text : List Char) : canonicalChars text = respell text := by
  change multiplyBetween groupBeforeOperand (multiplyBetween coefficientBeforeWord (factors text)) =
    respell text
  induction text with
  | nil => rfl
  | cons left later inductionHypothesis =>
    cases later with
    | nil =>
      have whole : factors [left] = spell left := List.append_nil _
      rw [whole, sparing_coefficientBeforeWord.spell, sparing_groupBeforeOperand.spell]
      rfl
    | cons right later =>
      -- All three passes look at the same two neighbours, so their tests come to one.
      obtain ⟨rest, first⟩ := head_factors right later
      obtain ⟨back, kept⟩ := head_multiplyBetween coefficientBeforeWord (edge right) rest
      rw [factors_cons_cons, first, sparing_coefficientBeforeWord.pass, kept,
        sparing_groupBeforeOperand.pass, ← kept, ← first, inductionHypothesis, multiplies_eq]
      rfl

/-! ## Pieces -/

/-- The characters of operands. Only they and a closing parenthesis stand beside a missing sign. -/
def isOperandChar (c : Char) : Bool :=
  Decimal.isNumeralChar c || c.isAlpha || c == 'π'

theorem isDigit_of_not_isNumeralChar {c : Char} (other : Decimal.isNumeralChar c = false) :
    c.isDigit = false := by
  rw [Decimal.isNumeralChar, Bool.or_eq_false_iff] at other
  exact other.1

theorem multiplies_sign_right {right : Char} (apart : isOperandChar right = false) (left : Char) :
    multiplies left right = false := by
  simp only [isOperandChar, Bool.or_eq_false_iff] at apart
  obtain ⟨⟨numeral, letter⟩, isPi⟩ := apart
  simp only [multiplies, touchesPi, numeral, letter, isPi, isDigit_of_not_isNumeralChar numeral,
    Bool.and_false, Bool.or_false]

theorem multiplies_sign_left {left : Char} (apart : isOperandChar left = false)
    (opens : left ≠ ')') (right : Char) : multiplies left right = false := by
  simp only [isOperandChar, Bool.or_eq_false_iff] at apart
  obtain ⟨⟨numeral, letter⟩, isPi⟩ := apart
  simp only [multiplies, touchesPi, numeral, isPi, isDigit_of_not_isNumeralChar numeral,
    beq_eq_false_iff_ne.mpr opens, Bool.false_and, Bool.or_false]

theorem respell_append (front : List Char) (last next : Char) (back : List Char) :
    respell (front ++ last :: next :: back) =
      respell (front ++ [last]) ++ sign (multiplies last next) ++ respell (next :: back) := by
  induction front with
  | nil => rfl
  | cons first front inductionHypothesis =>
    cases front with
    | nil =>
      simp only [List.cons_append, List.nil_append] at inductionHypothesis ⊢
      rw [respell_cons_cons, inductionHypothesis, respell_cons_cons first last []]
      simp only [List.append_assoc]
    | cons second front =>
      simp only [List.cons_append] at inductionHypothesis ⊢
      rw [respell_cons_cons, inductionHypothesis, respell_cons_cons]
      simp only [List.append_assoc]

theorem canonicalChars_append_sign {next : Char} (apart : isOperandChar next = false)
    (front back : List Char) :
    canonicalChars (front ++ next :: back) =
      canonicalChars front ++ canonicalChars (next :: back) := by
  rw [canonicalChars_eq_respell, canonicalChars_eq_respell, canonicalChars_eq_respell]
  obtain rfl | ⟨earlier, last, rfl⟩ := List.eq_nil_or_concat front
  · rfl
  · simp only [List.concat_eq_append, List.append_assoc, List.cons_append, List.nil_append]
    rw [respell_append, multiplies_sign_right apart]
    simp [sign]

theorem spell_sign {c : Char} (apart : isOperandChar c = false) : spell c = [asciiSymbol c] := by
  simp only [isOperandChar, Bool.or_eq_false_iff] at apart
  exact spell_of_ne (beq_eq_false_iff_ne.mp apart.2)

theorem canonicalChars_cons_sign {first : Char} (apart : isOperandChar first = false)
    (opens : first ≠ ')') (back : List Char) :
    canonicalChars (first :: back) = asciiSymbol first :: canonicalChars back := by
  rw [canonicalChars_eq_respell, canonicalChars_eq_respell]
  cases back with
  | nil => exact spell_sign apart
  | cons second back =>
    rw [respell_cons_cons, multiplies_sign_left apart opens, spell_sign apart]
    rfl

theorem isOperandChar_asciiSymbol (c : Char) :
    isOperandChar (asciiSymbol c) = isOperandChar c := by
  rw [isOperandChar, isOperandChar, isNumeralChar_asciiSymbol, isAlpha_asciiSymbol,
    asciiSymbol_beq_pi]

/-- A sign stays where it is, also a closing parenthesis with a `*` behind it. -/
theorem head_canonicalChars {first : Char} (apart : isOperandChar first = false)
    (back : List Char) :
    ∃ after, canonicalChars (first :: back) = asciiSymbol first :: after := by
  rw [canonicalChars_eq_respell]
  cases back with
  | nil => exact ⟨[], spell_sign apart⟩
  | cons second back =>
    rw [respell_cons_cons, spell_sign apart]
    exact ⟨_, rfl⟩

theorem canonicalChars_eq_self {text : List Char} (plain : ∀ c ∈ text, spell c = [c])
    (apart : ∀ before left right after, text = before ++ left :: right :: after →
      multiplies left right = false) : canonicalChars text = text := by
  rw [canonicalChars_eq_respell]
  induction text with
  | nil => rfl
  | cons first later inductionHypothesis =>
    cases later with
    | nil => exact plain first List.mem_cons_self
    | cons second later =>
      have rest := inductionHypothesis (fun c member => plain c (List.mem_cons_of_mem _ member))
        (fun before left right after same =>
          apart (first :: before) left right after (congrArg (first :: ·) same))
      rw [respell_cons_cons, plain first List.mem_cons_self, rest, apart [] first second later rfl]
      rfl

theorem isAlpha_of_isNumeralChar {c : Char} (numeral : Decimal.isNumeralChar c = true) :
    c.isAlpha = false := by
  simp only [Decimal.isNumeralChar, Bool.or_eq_true, beq_iff_eq] at numeral
  obtain digit | rfl := numeral
  · change (decide (48 ≤ c.val) && decide (c.val ≤ 57)) = true at digit
    change (decide (65 ≤ c.val ∧ c.val ≤ 90) || decide (97 ≤ c.val) && decide (c.val ≤ 122)) = false
    simp only [Bool.and_eq_true, decide_eq_true_eq, UInt32.le_iff_toNat_le] at digit
    simp only [Bool.or_eq_false_iff, Bool.and_eq_false_iff, decide_eq_false_iff_not,
      UInt32.le_iff_toNat_le]
    change 48 ≤ c.val.toNat ∧ c.val.toNat ≤ 57 at digit
    change ¬ (65 ≤ c.val.toNat ∧ _) ∧ (¬ 97 ≤ c.val.toNat ∨ _)
    omega
  · rfl

theorem isNumeralChar_of_isAlpha {c : Char} (letter : c.isAlpha = true) :
    Decimal.isNumeralChar c = false := by
  cases numeral : Decimal.isNumeralChar c with
  | false => rfl
  | true =>
    rw [isAlpha_of_isNumeralChar numeral] at letter
    cases letter

theorem spell_operandChar {c : Char} (operand : isOperandChar c = true) (other : c ≠ 'π') :
    spell c = [c] := by
  rw [spell_of_ne other]
  obtain ⟨rfl, -⟩ | ⟨rfl, -⟩ | ⟨rfl, -⟩ | same := asciiSymbol_cases c
  · exact absurd operand (by decide)
  · exact absurd operand (by decide)
  · exact absurd operand (by decide)
  · rw [same]

theorem ne_pi_of_isNumeralChar {c : Char} (numeral : Decimal.isNumeralChar c = true) : c ≠ 'π' := by
  rintro rfl
  exact absurd numeral (by decide)

theorem ne_pi_of_isAlpha {c : Char} (letter : c.isAlpha = true) : c ≠ 'π' := by
  rintro rfl
  exact absurd letter (by decide)

theorem canonicalChars_numeral {text : List Char}
    (numeral : ∀ c ∈ text, Decimal.isNumeralChar c = true) : canonicalChars text = text := by
  apply canonicalChars_eq_self
  · intro c member
    apply spell_operandChar _ (ne_pi_of_isNumeralChar (numeral c member))
    simp only [isOperandChar, numeral c member, Bool.true_or]
  · intro before left right after same
    have leftMember : left ∈ text := by simp [same]
    have rightMember : right ∈ text := by simp [same]
    have closing : left ≠ ')' := by
      rintro rfl
      exact absurd (numeral _ leftMember) (by decide)
    simp only [multiplies, touchesPi, isAlpha_of_isNumeralChar (numeral right rightMember),
      beq_eq_false_iff_ne.mpr (ne_pi_of_isNumeralChar (numeral left leftMember)),
      beq_eq_false_iff_ne.mpr (ne_pi_of_isNumeralChar (numeral right rightMember)),
      beq_eq_false_iff_ne.mpr closing, Bool.and_false, Bool.false_and, Bool.or_false]

theorem canonicalChars_word {text : List Char} (letters : ∀ c ∈ text, c.isAlpha = true) :
    canonicalChars text = text := by
  apply canonicalChars_eq_self
  · intro c member
    apply spell_operandChar _ (ne_pi_of_isAlpha (letters c member))
    simp only [isOperandChar, letters c member, Bool.or_true, Bool.true_or]
  · intro before left right after same
    have leftMember : left ∈ text := by simp [same]
    have rightMember : right ∈ text := by simp [same]
    have closing : left ≠ ')' := by
      rintro rfl
      exact absurd (letters _ leftMember) (by decide)
    have digit :=
      isDigit_of_not_isNumeralChar (isNumeralChar_of_isAlpha (letters left leftMember))
    simp only [multiplies, touchesPi, digit,
      beq_eq_false_iff_ne.mpr (ne_pi_of_isAlpha (letters left leftMember)),
      beq_eq_false_iff_ne.mpr (ne_pi_of_isAlpha (letters right rightMember)),
      beq_eq_false_iff_ne.mpr closing, Bool.and_false, Bool.false_and, Bool.or_false]

end Keypad.Canonical
