import Keypad.Expression.Grammar

/-!
# Places

Where operands, operators and parentheses can stand is decided from left to right: at every place
some number of groups is open, and an operand comes next or does not. The phrases of the infix
grammar are the sequences that complete an expression in this way (`phrase_iff_completes`).
-/

namespace Keypad

theorem OperatorTable.mem_common_iff {op : Operator} :
    op ∈ common.entries ↔
      op = .power ∨ op = .multiply ∨ op = .divide ∨ op = .add ∨ op = .subtract := by
  change op ∈ [Operator.subtract, .add, .divide, .multiply, .power] ↔ _
  simp only [List.mem_cons, List.not_mem_nil, or_false]
  grind

namespace Expression

/-- The infix grammar without trees. As nothing depends on the tree, a bare argument may end
    anywhere. -/
inductive Phrase : Level → List Lexeme → Prop where
  | number (value : Float) : Phrase .atom [.number value]
  | group {phrase : List Lexeme} (inner : Phrase .sum phrase) :
      Phrase .atom (.leftParen :: phrase ++ [.rightParen])
  | call (function : UnaryFunction) {phrase : List Lexeme} (argument : Phrase .sum phrase) :
      Phrase .atom (.word function.name :: .leftParen :: phrase ++ [.rightParen])
  | bareCall (function : UnaryFunction) {phrase : List Lexeme} (argument : Phrase .sum phrase) :
      Phrase .atom (.word function.name :: phrase)
  | ofAtom {phrase : List Lexeme} (atom : Phrase .atom phrase) : Phrase .power phrase
  | raise {left right : List Lexeme} (leftPhrase : Phrase .atom left)
      (rightPhrase : Phrase .sign right) : Phrase .power (left ++ .operator .power :: right)
  | ofPower {phrase : List Lexeme} (power : Phrase .power phrase) : Phrase .sign phrase
  | negate {phrase : List Lexeme} (operand : Phrase .sign phrase) :
      Phrase .sign (.operator .subtract :: phrase)
  | ofSign {phrase : List Lexeme} (sign : Phrase .sign phrase) : Phrase .product phrase
  | multiply {op : Operator} (multiplicative : op = .multiply ∨ op = .divide)
      {left right : List Lexeme} (leftPhrase : Phrase .product left)
      (rightPhrase : Phrase .sign right) : Phrase .product (left ++ .operator op :: right)
  | ofProduct {phrase : List Lexeme} (product : Phrase .product phrase) : Phrase .sum phrase
  | add {op : Operator} (additive : op = .add ∨ op = .subtract) {left right : List Lexeme}
      (leftPhrase : Phrase .sum left) (rightPhrase : Phrase .product right) :
      Phrase .sum (left ++ .operator op :: right)

theorem Derives.phrase {level : Level} {bare : Bool} {phrase : List Lexeme} {tree : Expression}
    (derived : Derives level bare phrase tree) : Phrase level phrase := by
  induction derived with
  | number value => exact .number value
  | group _ inner => exact .group inner
  | call f _ argument => exact .call f argument
  | bareCall f _ _ argument => exact .bareCall f argument
  | ofAtom _ atom => exact .ofAtom atom
  | raise _ _ left right => exact .raise left right
  | ofPower _ power => exact .ofPower power
  | negate _ operand => exact .negate operand
  | ofSign _ sign => exact .ofSign sign
  | multiply multiplicative _ _ left right => exact .multiply multiplicative left right
  | ofProduct _ product => exact .ofProduct product
  | add additive _ _ left right => exact .add additive left right

/-- How many groups are open, and whether an operand comes next. -/
structure Place where
  openGroups : Nat
  expectsOperand : Bool

/-- The lexemes that can stand at a place, and the place behind them. -/
inductive Takes : Place → Lexeme → Place → Prop where
  | number (value : Float) {depth : Nat} : Takes ⟨depth, true⟩ (.number value) ⟨depth, false⟩
  | word (function : UnaryFunction) {depth : Nat} :
      Takes ⟨depth, true⟩ (.word function.name) ⟨depth, true⟩
  | opening {depth : Nat} : Takes ⟨depth, true⟩ .leftParen ⟨depth + 1, true⟩
  | sign {depth : Nat} : Takes ⟨depth, true⟩ (.operator .subtract) ⟨depth, true⟩
  | infixed {op : Operator} (member : op ∈ OperatorTable.common.entries) {depth : Nat} :
      Takes ⟨depth, false⟩ (.operator op) ⟨depth, true⟩
  | closing {depth : Nat} : Takes ⟨depth + 1, false⟩ .rightParen ⟨depth, false⟩

/-- The sequences that complete an expression from a place on. -/
inductive Completes : Place → List Lexeme → Prop where
  | finish : Completes ⟨0, false⟩ []
  | take {place next : Place} {lexeme : Lexeme} {later : List Lexeme}
      (taken : Takes place lexeme next) (completes : Completes next later) :
      Completes place (lexeme :: later)

/-! ## Phrases complete an expression -/

theorem Phrase.completes {level : Level} {phrase : List Lexeme} (derived : Phrase level phrase)
    {depth : Nat} {later : List Lexeme} (rest : Completes ⟨depth, false⟩ later) :
    Completes ⟨depth, true⟩ (phrase ++ later) := by
  induction derived generalizing depth later with
  | number value => exact .take (.number value) rest
  | @group phrase inner innerCompletes =>
    have inside := innerCompletes (.take .closing rest)
    rw [List.append_cons] at inside
    exact .take .opening inside
  | @call f phrase argument argumentCompletes =>
    have inside := argumentCompletes (.take .closing rest)
    rw [List.append_cons] at inside
    exact .take (.word f) (.take .opening inside)
  | bareCall f argument argumentCompletes => exact .take (.word f) (argumentCompletes rest)
  | ofAtom atom atomCompletes => exact atomCompletes rest
  | raise leftPhrase rightPhrase leftCompletes rightCompletes =>
    rw [List.append_assoc]
    exact leftCompletes (.take (.infixed (by decide)) (rightCompletes rest))
  | ofPower power powerCompletes => exact powerCompletes rest
  | negate operand operandCompletes => exact .take .sign (operandCompletes rest)
  | ofSign sign signCompletes => exact signCompletes rest
  | multiply multiplicative leftPhrase rightPhrase leftCompletes rightCompletes =>
    have member := OperatorTable.mem_common_iff.mpr (.inr (multiplicative.imp_right .inl))
    rw [List.append_assoc]
    exact leftCompletes (.take (.infixed member) (rightCompletes rest))
  | ofProduct product productCompletes => exact productCompletes rest
  | add additive leftPhrase rightPhrase leftCompletes rightCompletes =>
    have member := OperatorTable.mem_common_iff.mpr (.inr (.inr (.inr additive)))
    rw [List.append_assoc]
    exact leftCompletes (.take (.infixed member) (rightCompletes rest))

/-! ## What completes an expression has a derivation -/

/-- Sums of the grammar, whatever their tree is. -/
def IsSum (phrase : List Lexeme) : Prop :=
  ∃ bare tree, Derives .sum bare phrase tree

theorem Derives.head?_append {level : Level} {bare : Bool} {phrase : List Lexeme}
    {tree : Expression} (derived : Derives level bare phrase tree) (later : List Lexeme) :
    (phrase ++ later).head? = phrase.head? := by
  cases phrase with
  | nil => exact absurd rfl derived.phrase_ne_nil
  | cons first rest => rfl

theorem Derives.lead_product {lead : List Lexeme}
    (leads : ∀ bare phrase tree, Derives .sign bare phrase tree →
      ∃ leadTree, Derives .product bare (lead ++ phrase) leadTree)
    {bare : Bool} {phrase : List Lexeme} {tree : Expression}
    (derived : Derives .product bare phrase tree) :
    ∃ leadTree, Derives .product bare (lead ++ phrase) leadTree := by
  generalize isProduct : Level.product = level at derived
  induction derived with
  | ofSign sign => exact leads _ _ _ sign
  | multiply multiplicative leftDerived rightDerived leftLead =>
    obtain ⟨leadTree, leadDerived⟩ := leftLead isProduct
    rw [← List.append_assoc]
    exact ⟨_, .multiply multiplicative leadDerived rightDerived⟩
  | _ => cases isProduct

theorem IsSum.lead {lead : List Lexeme}
    (leads : ∀ bare phrase tree, Derives .product bare phrase tree →
      ∃ leadTree, Derives .sum bare (lead ++ phrase) leadTree)
    {phrase : List Lexeme} (sum : IsSum phrase) : IsSum (lead ++ phrase) := by
  obtain ⟨bare, tree, derived⟩ := sum
  refine ⟨bare, ?_⟩
  generalize isSum : Level.sum = level at derived
  induction derived with
  | ofProduct product => exact leads _ _ _ product
  | add additive leftDerived rightDerived leftLead =>
    obtain ⟨leadTree, leadDerived⟩ := leftLead isSum
    rw [← List.append_assoc]
    exact ⟨_, .add additive leadDerived rightDerived⟩
  | _ => cases isSum

theorem IsSum.lead_of_sign {lead : List Lexeme}
    (leads : ∀ bare phrase tree, Derives .sign bare phrase tree →
      ∃ leadTree, Derives .product bare (lead ++ phrase) leadTree)
    {phrase : List Lexeme} (sum : IsSum phrase) : IsSum (lead ++ phrase) := by
  refine sum.lead fun bare phrase tree product => ?_
  obtain ⟨leadTree, leadDerived⟩ := product.lead_product leads
  exact ⟨leadTree, .ofProduct leadDerived⟩

/-- What follows an operand in its group: nothing, or an operator with another operand. -/
def Rest (lexemes : List Lexeme) : Prop :=
  lexemes = [] ∨ ∃ op phrase, op ∈ OperatorTable.common.entries ∧ IsSum phrase ∧
    lexemes = .operator op :: phrase

theorem Derives.append_rest {atom rest : List Lexeme} {tree : Expression}
    (operand : Derives .atom false atom tree) (follows : Rest rest) : IsSum (atom ++ rest) := by
  have sign : Derives .sign false atom tree := .ofPower (.ofAtom operand)
  obtain rfl | ⟨op, phrase, member, sum, rfl⟩ := follows
  · rw [List.append_nil]
    exact ⟨false, tree, .ofProduct (.ofSign sign)⟩
  · rw [List.append_cons]
    obtain rfl | rfl | rfl | additive := OperatorTable.mem_common_iff.mp member
    · refine sum.lead_of_sign fun bare phrase tree exponent => ?_
      rw [← List.append_cons]
      exact ⟨_, .ofSign (.ofPower (.raise operand exponent))⟩
    · refine sum.lead_of_sign fun bare phrase tree factor => ?_
      rw [← List.append_cons]
      exact ⟨_, .multiply (.inl rfl) (.ofSign sign) factor⟩
    · refine sum.lead_of_sign fun bare phrase tree factor => ?_
      rw [← List.append_cons]
      exact ⟨_, .multiply (.inr rfl) (.ofSign sign) factor⟩
    · refine sum.lead fun bare phrase tree summand => ?_
      rw [← List.append_cons]
      exact ⟨_, .add additive (.ofProduct (.ofSign sign)) summand⟩

/-- A phrase with a group at its front, for which any other atom can stand. -/
def OpensWithGroup (level : Level) (bare : Bool) (phrase : List Lexeme) : Prop :=
  ∃ inner rest, IsSum inner ∧ phrase = .leftParen :: inner ++ [.rightParen] ++ rest ∧
    ∀ atom atomTree, Derives .atom false atom atomTree →
      ∃ tree, Derives level bare (atom ++ rest) tree

theorem OpensWithGroup.append {level looser : Level} {bare rightBare : Bool} {left : List Lexeme}
    (opens : OpensWithGroup level bare left) (right : List Lexeme)
    (appends : ∀ phrase tree, Derives level bare phrase tree →
      ∃ whole, Derives looser rightBare (phrase ++ right) whole) :
    OpensWithGroup looser rightBare (left ++ right) := by
  obtain ⟨inner, rest, sum, rfl, replaces⟩ := opens
  refine ⟨inner, rest ++ right, sum, List.append_assoc _ _ _, fun atom atomTree replaced => ?_⟩
  obtain ⟨tree, derived⟩ := replaces atom atomTree replaced
  rw [← List.append_assoc]
  exact appends _ _ derived

theorem OpensWithGroup.loosen {level looser : Level} {bare : Bool} {phrase : List Lexeme}
    (opens : OpensWithGroup level bare phrase)
    (loosens : ∀ phrase tree, Derives level bare phrase tree → Derives looser bare phrase tree) :
    OpensWithGroup looser bare phrase := by
  obtain ⟨inner, rest, sum, rfl, replaces⟩ := opens
  refine ⟨inner, rest, sum, rfl, fun atom atomTree replaced => ?_⟩
  obtain ⟨tree, derived⟩ := replaces atom atomTree replaced
  exact ⟨tree, loosens _ _ derived⟩

theorem Derives.opensWithGroup {level : Level} {bare : Bool} {phrase : List Lexeme}
    {tree : Expression} (derived : Derives level bare phrase tree)
    (grouped : phrase.head? = some .leftParen) : OpensWithGroup level bare phrase := by
  induction derived with
  | @group innerBare phrase tree inner =>
    refine ⟨phrase, [], ⟨innerBare, tree, inner⟩, (List.append_nil _).symm, ?_⟩
    intro atom atomTree replaced
    rw [List.append_nil]
    exact ⟨atomTree, replaced⟩
  | ofAtom _ opens => exact (opens grouped).loosen fun _ _ => .ofAtom
  | ofPower _ opens => exact (opens grouped).loosen fun _ _ => .ofPower
  | ofSign _ opens => exact (opens grouped).loosen fun _ _ => .ofSign
  | ofProduct _ opens => exact (opens grouped).loosen fun _ _ => .ofProduct
  | raise leftDerived rightDerived opens =>
    rw [leftDerived.head?_append] at grouped
    exact (opens grouped).append _ fun _ _ base => ⟨_, .raise base rightDerived⟩
  | multiply multiplicative leftDerived rightDerived opens =>
    rw [leftDerived.head?_append] at grouped
    exact (opens grouped).append _ fun _ _ first => ⟨_, .multiply multiplicative first rightDerived⟩
  | add additive leftDerived rightDerived opens =>
    rw [leftDerived.head?_append] at grouped
    exact (opens grouped).append _ fun _ _ first => ⟨_, .add additive first rightDerived⟩
  | _ => cases grouped

theorem IsSum.word {phrase : List Lexeme} (sum : IsSum phrase) (f : UnaryFunction) :
    IsSum (.word f.name :: phrase) := by
  obtain ⟨bare, tree, derived⟩ := sum
  by_cases grouped : phrase.head? = some .leftParen
  · obtain ⟨inner, rest, ⟨innerBare, innerTree, argument⟩, rfl, replaces⟩ :=
      derived.opensWithGroup grouped
    obtain ⟨newTree, newDerived⟩ := replaces _ _ (.call f argument)
    exact ⟨bare, newTree, newDerived⟩
  · exact ⟨true, _, .ofProduct (.ofSign (.ofPower (.ofAtom (.bareCall f derived grouped))))⟩

/-- Sequences that go on as described up to the end of the innermost group and, behind every closing
    parenthesis, with the rest of the group around it. -/
def Closes (inner : List Lexeme → Prop) : Nat → List Lexeme → Prop
  | 0, lexemes => inner lexemes
  | depth + 1, lexemes =>
    ∃ front back, inner front ∧ Closes Rest depth back ∧ lexemes = front ++ .rightParen :: back

theorem Closes.lead {inner outer : List Lexeme → Prop} (lead : List Lexeme)
    (leads : ∀ lexemes, inner lexemes → outer (lead ++ lexemes)) {depth : Nat}
    {lexemes : List Lexeme} (closes : Closes inner depth lexemes) :
    Closes outer depth (lead ++ lexemes) := by
  cases depth with
  | zero => exact leads lexemes closes
  | succ depth =>
    obtain ⟨front, back, described, closed, rfl⟩ := closes
    exact ⟨lead ++ front, back, leads front described, closed, (List.append_assoc _ _ _).symm⟩

/-- What stands at a place in the innermost group. -/
def Place.Awaits (place : Place) (lexemes : List Lexeme) : Prop :=
  if place.expectsOperand then IsSum lexemes else Rest lexemes

theorem closes_of_completes {place : Place} {lexemes : List Lexeme}
    (completes : Completes place lexemes) : Closes place.Awaits place.openGroups lexemes := by
  induction completes with
  | finish => exact .inl rfl
  | take taken _ closes =>
    cases taken with
    | number value =>
      exact Closes.lead [.number value] (fun _ => (Derives.number value).append_rest) closes
    -- The sum behind a function may begin with a group, which alone is the argument then.
    | word f => exact Closes.lead [.word f.name] (fun _ sum => sum.word f) closes
    | opening =>
      obtain ⟨phrase, back, ⟨bare, tree, inner⟩, closed, rfl⟩ := closes
      have group := Closes.lead (.leftParen :: phrase ++ [.rightParen])
        (fun _ => (Derives.group inner).append_rest) closed
      rwa [← List.append_cons] at group
    | sign =>
      refine Closes.lead [.operator .subtract] (fun phrase sum => ?_) closes
      exact sum.lead_of_sign fun _ _ _ operand => ⟨_, .ofSign (.negate operand)⟩
    | @infixed op member depth =>
      exact Closes.lead [.operator op]
        (fun phrase sum => .inr ⟨op, phrase, member, sum, rfl⟩) closes
    | closing => exact ⟨[], _, .inl rfl, closes, rfl⟩

/-- The same sequences are phrases, have a derivation, and complete an expression. -/
theorem phrase_iff_completes {lexemes : List Lexeme} :
    Phrase .sum lexemes ↔ Completes ⟨0, true⟩ lexemes := by
  constructor
  · intro derived
    have completes := derived.completes .finish
    rwa [List.append_nil] at completes
  · intro completes
    obtain ⟨bare, tree, derived⟩ := closes_of_completes completes
    exact derived.phrase

theorem phrase_iff_derives {lexemes : List Lexeme} :
    Phrase .sum lexemes ↔ ∃ bare tree, Derives .sum bare lexemes tree := by
  constructor
  · intro phrase
    exact closes_of_completes (phrase_iff_completes.mp phrase)
  · rintro ⟨bare, tree, derived⟩
    exact derived.phrase

end Expression

end Keypad
