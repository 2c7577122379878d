import Keypad.Proofs.Token.Reading

/-!
# Faults of a text

Before a text is looked at as an expression, two things may be wrong with it: a run of digits and
points that is no numeral, and a character that no expression has. A text is faultless if it has
neither, which is decided by cutting it into runs (`faultless_iff`). In any other text one of the two
comes first (`faultless_or_first_fault`).
-/

namespace Keypad

namespace Lexeme

theorem isNumeralChar_of_run {text : List Char} {run : Run Char}
    (member : run ∈ Run.split joins text) (numeral : Decimal.isNumeralChar run.first = true) :
    ∀ c ∈ run.toList, Decimal.isNumeralChar c = true := by
  apply Run.forall_of_first (fun c => Decimal.isNumeralChar c = true) _ member numeral
  intro left right joined numeral
  rwa [joins_numeral_left numeral] at joined

theorem isAlpha_of_run {text : List Char} {run : Run Char}
    (member : run ∈ Run.split joins text) (letter : run.first.isAlpha = true) :
    ∀ c ∈ run.toList, c.isAlpha = true := by
  apply Run.forall_of_first (fun c => c.isAlpha = true) _ member letter
  intro left right joined letter
  rwa [joins_letter_left letter] at joined

/-- Signs join nothing, so they are runs of their own. -/
theorem eq_of_sign_run {run : Run Char} (alone : Run.split joins run.toList = [run])
    (other : Decimal.isNumeralChar run.first = false) (nonletter : run.first.isAlpha = false) :
    run = ⟨run.first, []⟩ := by
  rw [Run.toList, Run.split_cons_of_apart (joins_left_of_symbol other nonletter)] at alone
  exact (List.cons.inj alone).1.symm

end Lexeme

namespace Text

/-! ## What a text may hold -/

/-- The characters of canonical text. -/
def isCanonicalChar (c : Char) : Bool :=
  c.isDigit || c.isAlpha || ".+-*/^()".toList.contains c

/-- The characters that expressions are typed with. -/
def isTypedChar (c : Char) : Bool :=
  isCanonicalChar c || "÷×−π".toList.contains c

theorem isCanonicalChar_of_isNumeralChar {c : Char} (numeral : Decimal.isNumeralChar c = true) :
    isCanonicalChar c = true := by
  rw [Decimal.isNumeralChar, Bool.or_eq_true, beq_iff_eq] at numeral
  obtain digit | rfl := numeral
  · rw [isCanonicalChar, digit, Bool.true_or, Bool.true_or]
  · rfl

theorem isCanonicalChar_of_isAlpha {c : Char} (letter : c.isAlpha = true) :
    isCanonicalChar c = true := by
  rw [isCanonicalChar, letter, Bool.or_true, Bool.true_or]

theorem isTypedChar_of_isCanonicalChar {c : Char} (canonical : isCanonicalChar c = true) :
    isTypedChar c = true := by
  rw [isTypedChar, canonical, Bool.true_or]

theorem isCanonicalChar_eq_false_of_isTypedChar {c : Char} (foreign : isTypedChar c = false) :
    isCanonicalChar c = false := by
  rw [isTypedChar, Bool.or_eq_false_iff] at foreign
  exact foreign.1

/-- A run of digits and points that reaches as far as it can between the parts beside it. -/
structure IsNumeralRun (before : List Char) (run : Run Char) (after : List Char) : Prop where
  numeral : ∀ c ∈ run.toList, Decimal.isNumeralChar c = true
  left : ∀ last ∈ before.getLast?, Decimal.isNumeralChar last = false
  right : ∀ next ∈ after.head?, Decimal.isNumeralChar next = false

/-- Such a run is no numeral if it has no digit or several points. -/
def Misread (run : Run Char) : Prop :=
  run.toList.any Char.isDigit = false ∨ 1 < run.toList.count '.'

instance (run : Run Char) : Decidable (Misread run) :=
  inferInstanceAs (Decidable (_ ∨ _))

/-- Every character is allowed, and every run of digits and points is a numeral. -/
structure Faultless (allowed : Char → Bool) (text : List Char) : Prop where
  characters : ∀ c ∈ text, allowed c = true
  numerals : ∀ before run after, text = before ++ run.toList ++ after →
    IsNumeralRun before run after → ¬ Misread run

variable {before after : List Char} {run : Run Char}

theorem IsNumeralRun.apart_left (isRun : IsNumeralRun before run after) :
    ∀ last ∈ before.getLast?, Lexeme.joins last run.first = false := by
  intro last isLast
  rw [Lexeme.joins_numeral_right (isRun.numeral run.first List.mem_cons_self)]
  exact isRun.left last isLast

theorem IsNumeralRun.apart_right (isRun : IsNumeralRun before run after) :
    ∀ last ∈ run.toList.getLast?, ∀ next ∈ after.head?, Lexeme.joins last next = false := by
  intro last isLast next isNext
  rw [Lexeme.joins_numeral_left (isRun.numeral last (List.mem_of_getLast? isLast))]
  exact isRun.right next isNext

theorem IsNumeralRun.split (isRun : IsNumeralRun before run after) :
    Run.split Lexeme.joins (before ++ run.toList ++ after) =
      Run.split Lexeme.joins before ++ run :: Run.split Lexeme.joins after := by
  rw [List.append_assoc, Run.split_append_of_apart, Run.split_append_of_apart isRun.apart_right,
    Lexeme.split_numeral isRun.numeral]
  · rfl
  · intro last isLast next isNext
    cases isNext
    exact isRun.apart_left last isLast

theorem isNumeralRun_of_apart (numeral : ∀ c ∈ run.toList, Decimal.isNumeralChar c = true)
    (left : ∀ last ∈ before.getLast?, Lexeme.joins last run.first = false)
    (right : ∀ last ∈ run.toList.getLast?, ∀ next ∈ after.head?, Lexeme.joins last next = false) :
    IsNumeralRun before run after := by
  refine ⟨numeral, ?_, ?_⟩
  · intro last isLast
    rw [← Lexeme.joins_numeral_right (numeral run.first List.mem_cons_self)]
    exact left last isLast
  · intro next isNext
    rw [← Lexeme.joins_numeral_left (numeral _ (List.getLast_mem run.toList_ne_nil))]
    exact right _ (List.getLast?_eq_some_getLast run.toList_ne_nil) next isNext

/-- Whether a run has no fault. -/
def isSound (allowed : Char → Bool) (run : Run Char) : Bool :=
  run.toList.all allowed && !(Decimal.isNumeralChar run.first && decide (Misread run))

variable {allowed : Char → Bool} {text : List Char}

theorem faultless_iff :
    Faultless allowed text ↔ (Run.split Lexeme.joins text).all (isSound allowed) = true := by
  rw [List.all_eq_true]
  constructor
  · intro faultless run member
    have within : ∀ c ∈ run.toList, allowed c = true := by
      intro c inside
      exact faultless.characters c ((Run.mem_iff_mem_run _).mpr ⟨run, member, inside⟩)
    cases numeral : Decimal.isNumeralChar run.first with
    | false =>
      rw [isSound, List.all_eq_true.mpr within, numeral]
      rfl
    | true =>
      obtain ⟨front, back, cut⟩ := List.append_of_mem member
      obtain ⟨before, after, same, -, -, left, right⟩ := Run.exists_of_split_eq_append cut
      have valid := faultless.numerals before run after same
        (isNumeralRun_of_apart (Lexeme.isNumeralChar_of_run member numeral) left right)
      rw [isSound, List.all_eq_true.mpr within, numeral, decide_eq_false valid]
      rfl
  · intro sound
    constructor
    · intro c member
      obtain ⟨run, inside, among⟩ := (Run.mem_iff_mem_run _).mp member
      have checked := sound run inside
      rw [isSound, Bool.and_eq_true, List.all_eq_true] at checked
      exact checked.1 c among
    · rintro before run after rfl isRun misread
      have checked := sound run (by
        rw [isRun.split]
        exact List.mem_append_right _ List.mem_cons_self)
      simp [isSound, isRun.numeral run.first List.mem_cons_self, misread] at checked

section Operands

variable (numerals : ∀ {c}, Decimal.isNumeralChar c = true → allowed c = true)
  (letters : ∀ {c}, c.isAlpha = true → allowed c = true)
include numerals letters

theorem fault_of_unsound (alone : Run.split Lexeme.joins run.toList = [run])
    (unsound : isSound allowed run = false) :
    (Decimal.isNumeralChar run.first = true ∧ Misread run) ∨ allowed run.first = false := by
  have member : run ∈ Run.split Lexeme.joins run.toList := by
    rw [alone]
    exact List.mem_cons_self
  cases numeral : Decimal.isNumeralChar run.first with
  | true =>
    have within : run.toList.all allowed = true := List.all_eq_true.mpr fun c inside =>
      numerals (Lexeme.isNumeralChar_of_run member numeral c inside)
    rw [isSound, within, numeral, Bool.true_and, Bool.true_and, Bool.not_eq_false',
      decide_eq_true_iff] at unsound
    exact .inl ⟨rfl, unsound⟩
  | false =>
    right
    rw [isSound, numeral, Bool.false_and, Bool.not_false, Bool.and_true] at unsound
    cases letter : run.first.isAlpha with
    | true =>
      have within : run.toList.all allowed = true := List.all_eq_true.mpr fun c inside =>
        letters (Lexeme.isAlpha_of_run member letter c inside)
      rw [within] at unsound
      cases unsound
    | false =>
      rw [Lexeme.eq_of_sign_run alone numeral letter] at unsound
      simpa [Run.toList] using unsound

/-- A text that is not faultless has a first fault. -/
theorem faultless_or_first_fault (text : List Char) :
    Faultless allowed text ∨
      (∃ before run after, text = before ++ run.toList ++ after ∧ IsNumeralRun before run after ∧
        Misread run ∧ Faultless allowed before) ∨
      ∃ before c after, text = before ++ c :: after ∧ allowed c = false ∧
        Faultless allowed before := by
  cases found : (Run.split Lexeme.joins text).find? fun run => !isSound allowed run with
  | none =>
    left
    rw [faultless_iff, List.all_eq_true]
    simpa using found
  | some run =>
    right
    obtain ⟨unsound, front, back, cut, sound⟩ := List.find?_eq_some_iff_append.mp found
    obtain ⟨before, after, rfl, rfl, alone, left, right⟩ := Run.exists_of_split_eq_append cut
    have faultless : Faultless allowed before := by
      rw [faultless_iff, List.all_eq_true]
      simpa using sound
    obtain ⟨numeral, misread⟩ | foreign :=
      fault_of_unsound numerals letters alone (by simpa using unsound)
    · left
      have within := Lexeme.isNumeralChar_of_run (alone ▸ List.mem_cons_self) numeral
      exact ⟨before, run, after, rfl, isNumeralRun_of_apart within left right, misread, faultless⟩
    · right
      refine ⟨before, run.first, run.rest ++ after, ?_, foreign, faultless⟩
      rw [List.append_assoc]
      rfl

end Operands

/-- Numerals are read, and nothing else that is made of digits and points. -/
theorem isNumeral_iff (numeral : ∀ c ∈ run.toList, Decimal.isNumeralChar c = true) :
    Decimal.isNumeral run.toList = true ↔ ¬ Misread run := by
  rw [Decimal.isNumeral, List.all_eq_true.mpr numeral, Bool.true_and, Bool.and_eq_true,
    decide_eq_true_iff, Misread, not_or, Nat.not_lt, Bool.not_eq_false]

instance (allowed : Char → Bool) (text : List Char) : Decidable (Faultless allowed text) :=
  decidable_of_iff _ faultless_iff.symm

end Text

end Keypad
