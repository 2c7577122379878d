import Keypad.Evaluation
import Keypad.Expression.Grammar
import Keypad.Proofs.Postfix.Run

/-!
# Postfix order of derivations

Reading a phrase of the infix grammar puts its tree into postorder. In the middle of an expression
this means: whatever is pending below the phrase stays where it is, and what the phrase itself
leaves pending is the end of its postorder (`run_of_derives`). The invariant is carried by levels.
What is pending below must not claim an operand from the operators inside the phrase
(`Accommodates`), and what the phrase leaves pending must be released by every operator that can
follow it (`Settles`).
-/

namespace Keypad.Expression

open Postfix Postfix.State

/-- The operators of a phrase outside of its groups and bare arguments. -/
def Level.operators : Level → List Operator
  | .sum => [.power, .multiply, .divide, .add, .subtract]
  | .product => [.power, .multiply, .divide]
  | .sign => [.power]
  | .power => [.power]
  | .atom => []

/-- The operators that can follow a phrase without taking its last operand from it. -/
def Level.followers : Level → List Operator
  | .sum => [.add, .subtract]
  | .product => [.multiply, .divide, .add, .subtract]
  | .sign => [.multiply, .divide, .add, .subtract]
  | .power => [.multiply, .divide, .add, .subtract]
  | .atom => [.power, .multiply, .divide, .add, .subtract]

/-- Pending entries on which a phrase of a level can be read. They claim none of its operands, and
    no function among them takes a group at the front of the phrase for its argument. -/
structure Accommodates (level : Level) (phrase : List Lexeme) (below : List Pending) : Prop where
  unclaimed : ∀ op ∈ level.operators, ∀ top ∈ below.head?, Pending.claimsBefore op top = false
  unapplied : phrase.head? = some .leftParen → Pending.applied below = ([], below)

/-- Items that every operator behind a phrase of a level releases. -/
def Settles (level : Level) (waiting : List Item) : Prop :=
  ∀ op ∈ level.followers, ∀ item ∈ waiting, Pending.claimsBefore op (.item item) = true

theorem Accommodates.weaken {level tighter : Level} {phrase : List Lexeme} {below : List Pending}
    (accommodates : Accommodates level phrase below)
    (fewer : ∀ op ∈ tighter.operators, op ∈ level.operators) : Accommodates tighter phrase below :=
  ⟨fun op member => accommodates.unclaimed op (fewer op member), accommodates.unapplied⟩

theorem Accommodates.front {level : Level} {left rest : List Lexeme} {below : List Pending}
    (accommodates : Accommodates level (left ++ rest) below) : Accommodates level left below := by
  refine ⟨accommodates.unclaimed, fun grouped => accommodates.unapplied ?_⟩
  rw [List.head?_append, grouped]
  rfl

theorem Accommodates.operator {level : Level} {phrase : List Lexeme} (op : Operator)
    (below : List Pending) (unclaimed : ∀ other ∈ level.operators, op.claimsFrom other = false) :
    Accommodates level phrase (.item (.operator op) :: below) := by
  refine ⟨fun other member top isTop => ?_, fun _ => rfl⟩
  cases isTop
  exact unclaimed other member

theorem Accommodates.negation {phrase : List Lexeme} (below : List Pending) :
    Accommodates .sign phrase (.item .negation :: below) := by
  refine ⟨fun op member top isTop => ?_, fun _ => rfl⟩
  cases isTop
  rw [List.mem_singleton.mp member]
  rfl

theorem Accommodates.group {level : Level} {phrase : List Lexeme} (start : Nat)
    (below : List Pending) : Accommodates level phrase (.group start :: below) := by
  refine ⟨fun op _ top isTop => ?_, fun _ => rfl⟩
  cases isTop
  rfl

theorem Accommodates.function {level : Level} {phrase : List Lexeme} (f : UnaryFunction)
    (below : List Pending) (ungrouped : phrase.head? ≠ some .leftParen) :
    Accommodates level phrase (.item (.function f) :: below) := by
  refine ⟨fun op _ top isTop => ?_, fun grouped => absurd grouped ungrouped⟩
  cases isTop
  rfl

theorem Settles.append {level looser : Level} {waiting : List Item} {item : Item}
    (settles : Settles level waiting)
    (fewer : ∀ op ∈ looser.followers, op ∈ level.followers)
    (released : ∀ op ∈ looser.followers, Pending.claimsBefore op (.item item) = true) :
    Settles looser (waiting ++ [item]) := by
  intro op member entry among
  obtain earlier | last := List.mem_append.mp among
  · exact settles op (fewer op member) entry earlier
  · rw [List.mem_singleton.mp last]
    exact released op member

theorem release_of_settles {level : Level} {waiting : List Item} (settles : Settles level waiting)
    {op : Operator} (follows : op ∈ level.followers) {below : List Pending}
    (unclaimed : ∀ top ∈ below.head?, Pending.claimsBefore op top = false) (expects : Bool) :
    release ⟨Pending.block waiting ++ below, expects⟩ op = (waiting, ⟨below, expects⟩) :=
  release_block (settles op follows) unclaimed expects

/-- What reading a phrase does to the machine: it puts out a part of the postorder, and the rest of
    it waits on the stack, all of it in reach of the next operator unless a bare argument is open. -/
def Reads (level : Level) (bare : Bool) (tree : Expression) (below : List Pending)
    (tokens : List Token) : Prop :=
  ∃ emitted waiting,
    run ⟨below, true⟩ tokens = .ok (emitted, ⟨Pending.block waiting ++ below, false⟩) ∧
    emitted ++ waiting = tree.postorder ∧ (bare = false → Settles level waiting)

theorem Reads.loosen {level looser : Level} {bare : Bool} {tree : Expression}
    {below : List Pending} {tokens : List Token} (reads : Reads level bare tree below tokens)
    (fewer : ∀ op ∈ looser.followers, op ∈ level.followers) :
    Reads looser bare tree below tokens := by
  obtain ⟨emitted, waiting, ran, listed, settles⟩ := reads
  exact ⟨emitted, waiting, ran, listed, fun closed op member => settles closed op (fewer op member)⟩

theorem reads_group {bare : Bool} {tree : Expression} {opening closing : Token}
    {inside : List Token} {below : List Pending}
    (reads : Reads .sum bare tree (.group opening.span.start :: below) inside)
    (opens : opening.lexeme = .leftParen) (closes : closing.lexeme = .rightParen)
    (expects : Bool) :
    run ⟨below, expects⟩ (opening :: inside ++ [closing]) =
      .ok (tree.postorder ++ (Pending.applied below).1, ⟨(Pending.applied below).2, false⟩) := by
  obtain ⟨emitted, waiting, ran, listed, -⟩ := reads
  rw [run_enclosed ran opens closes, listed]

theorem reads_binary {level leftLevel rightLevel : Level} {bare : Bool} {op : Operator}
    {leftTree rightTree : Expression} {below : List Pending} {left right : List Token}
    {token : Token} (leftReads : Reads leftLevel false leftTree below left)
    (infixed : token.lexeme = .operator op)
    (rightReads : Reads rightLevel bare rightTree (.item (.operator op) :: below) right)
    (follows : op ∈ leftLevel.followers)
    (unclaimed : ∀ top ∈ below.head?, Pending.claimsBefore op top = false)
    (fewer : ∀ other ∈ level.followers, other ∈ rightLevel.followers)
    (released : ∀ other ∈ level.followers,
      Pending.claimsBefore other (.item (.operator op)) = true) :
    Reads level bare (.binary op leftTree rightTree) below (left ++ token :: right) := by
  obtain ⟨leftEmitted, leftWaiting, leftRan, leftListed, leftSettles⟩ := leftReads
  obtain ⟨emitted, waiting, rightRan, rightListed, rightSettles⟩ := rightReads
  have stepped : step ⟨Pending.block leftWaiting ++ below, false⟩ token =
      .ok (leftWaiting, ⟨.item (.operator op) :: below, true⟩) := by
    simp only [step, infixed, release_of_settles (leftSettles rfl) follows unclaimed]
    rfl
  refine ⟨leftEmitted ++ (leftWaiting ++ emitted), waiting ++ [.operator op], ?_, ?_, ?_⟩
  · rw [run_append_ok leftRan (run_cons_ok stepped rightRan)]
    simp
  · rw [postorder, ← leftListed, ← rightListed]
    simp
  · intro closed
    exact (rightSettles closed).append fewer released

/-- Factors are grouped from the left, and every factor is complete before the operator is. -/
theorem grouping_of_multiplicative {op : Operator}
    (multiplicative : op = .multiply ∨ op = .divide) :
    op ∈ Level.product.operators ∧ op ∈ Level.product.followers ∧
      (∀ other ∈ Level.sign.operators, op.claimsFrom other = false) ∧
      ∀ other ∈ Level.product.followers,
        Pending.claimsBefore other (.item (.operator op)) = true := by
  obtain rfl | rfl := multiplicative <;> decide

theorem grouping_of_additive {op : Operator} (additive : op = .add ∨ op = .subtract) :
    op ∈ Level.sum.operators ∧ op ∈ Level.sum.followers ∧
      (∀ other ∈ Level.product.operators, op.claimsFrom other = false) ∧
      ∀ other ∈ Level.sum.followers,
        Pending.claimsBefore other (.item (.operator op)) = true := by
  obtain rfl | rfl := additive <;> decide

theorem step_word {word : Token} {f : UnaryFunction} (named : word.lexeme = .word f.name)
    (below : List Pending) :
    step ⟨below, true⟩ word = .ok ([], ⟨.item (.function f) :: below, true⟩) := by
  simp only [step, named, UnaryFunction.ofName?_name]
  rfl

theorem run_of_derives {level : Level} {bare : Bool} {phrase : List Lexeme} {tree : Expression}
    (derived : Derives level bare phrase tree) {tokens : List Token}
    (spelled : tokens.map Token.lexeme = phrase) {below : List Pending}
    (accommodates : Accommodates level phrase below) : Reads level bare tree below tokens := by
  -- The induction is on the derivation. What is pending below changes from part to part.
  induction derived generalizing tokens below with
  | number value =>
    obtain ⟨token, rfl, lexeme⟩ := List.map_eq_singleton_iff.mp spelled
    refine ⟨[.number value], [], ?_, rfl, fun _ op _ item member => by cases member⟩
    simp only [run, step, lexeme]
    rfl
  | @group bare phrase tree inner innerReads =>
    obtain ⟨front, closings, rfl, fronts, last⟩ := List.map_eq_append_iff.mp spelled
    obtain ⟨opening, inside, rfl, opens, insides⟩ := List.map_eq_cons_iff.mp fronts
    obtain ⟨closing, rfl, closes⟩ := List.map_eq_singleton_iff.mp last
    have reads := innerReads insides (.group opening.span.start below)
    refine ⟨tree.postorder, [], ?_, List.append_nil _, fun _ op _ item member => by cases member⟩
    rw [reads_group reads opens closes, accommodates.unapplied rfl, List.append_nil]
    rfl
  | @call f bare phrase tree argument argumentReads =>
    obtain ⟨front, closings, rfl, fronts, last⟩ := List.map_eq_append_iff.mp spelled
    obtain ⟨word, grouped, rfl, named, groups⟩ := List.map_eq_cons_iff.mp fronts
    obtain ⟨opening, inside, rfl, opens, insides⟩ := List.map_eq_cons_iff.mp groups
    obtain ⟨closing, rfl, closes⟩ := List.map_eq_singleton_iff.mp last
    have reads := argumentReads insides (.group opening.span.start (.item (.function f) :: below))
    refine ⟨tree.postorder ++ [.function f], [], ?_, List.append_nil _,
      fun _ op _ item member => by cases member⟩
    have whole := run_cons_ok (step_word named below) (reads_group reads opens closes true)
    exact whole
  | @bareCall f bare phrase tree argument ungrouped argumentReads =>
    obtain ⟨word, later, rfl, named, laters⟩ := List.map_eq_cons_iff.mp spelled
    -- The function stays on the stack, so nothing behind the phrase can be said to release it.
    obtain ⟨emitted, waiting, ran, listed, -⟩ := argumentReads laters (.function f below ungrouped)
    refine ⟨emitted, waiting ++ [.function f], ?_, ?_, fun closed => by cases closed⟩
    · rw [run_cons_ok (step_word named below) ran]
      simp
    · rw [postorder, ← listed, List.append_assoc]
  | ofAtom atom atomReads =>
    exact (atomReads spelled (accommodates.weaken (by decide))).loosen (by decide)
  | @raise bare left right base exponent leftDerived rightDerived leftReads rightReads =>
    obtain ⟨leftTokens, rest, rfl, lefts, rests⟩ := List.map_eq_append_iff.mp spelled
    obtain ⟨token, rightTokens, rfl, infixed, rights⟩ := List.map_eq_cons_iff.mp rests
    have leftRead := leftReads lefts (accommodates.front.weaken (by decide))
    have rightRead := rightReads rights (.operator .power below (by decide))
    exact reads_binary leftRead infixed rightRead (by decide) (accommodates.unclaimed _ (by decide))
      (by decide) (by decide)
  | ofPower power powerReads =>
    exact (powerReads spelled (accommodates.weaken (by decide))).loosen (by decide)
  | @negate bare phrase tree operand operandReads =>
    obtain ⟨sign, later, rfl, signs, laters⟩ := List.map_eq_cons_iff.mp spelled
    have stepped : step ⟨below, true⟩ sign = .ok ([], ⟨.item .negation :: below, true⟩) := by
      simp only [step, signs]
      rfl
    obtain ⟨emitted, waiting, ran, listed, settles⟩ :=
      operandReads laters (.negation below)
    refine ⟨emitted, waiting ++ [.negation], ?_, ?_, ?_⟩
    · rw [run_cons_ok stepped ran]
      simp
    · rw [postorder, ← listed, List.append_assoc]
    · exact fun closed => (settles closed).append (by decide) (by decide)
  | ofSign sign signReads =>
    exact (signReads spelled (accommodates.weaken (by decide))).loosen (by decide)
  | @multiply op multiplicative bare left right first second leftDerived rightDerived leftReads
      rightReads =>
    obtain ⟨leftTokens, rest, rfl, lefts, rests⟩ := List.map_eq_append_iff.mp spelled
    obtain ⟨token, rightTokens, rfl, infixed, rights⟩ := List.map_eq_cons_iff.mp rests
    have leftRead := leftReads lefts accommodates.front
    obtain ⟨within, follows, unclaimed, released⟩ := grouping_of_multiplicative multiplicative
    exact reads_binary leftRead infixed (rightReads rights (.operator op below unclaimed)) follows
      (accommodates.unclaimed op within) (by decide) released
  | ofProduct product productReads =>
    exact (productReads spelled (accommodates.weaken (by decide))).loosen (by decide)
  | @add op additive bare left right first second leftDerived rightDerived leftReads rightReads =>
    obtain ⟨leftTokens, rest, rfl, lefts, rests⟩ := List.map_eq_append_iff.mp spelled
    obtain ⟨token, rightTokens, rfl, infixed, rights⟩ := List.map_eq_cons_iff.mp rests
    have leftRead := leftReads lefts accommodates.front
    obtain ⟨within, follows, unclaimed, released⟩ := grouping_of_additive additive
    exact reads_binary leftRead infixed (rightReads rights (.operator op below unclaimed)) follows
      (accommodates.unclaimed op within) (by decide) released

theorem items_of_derives {bare : Bool} {tokens : List Token} {tree : Expression}
    (derived : Derives .sum bare (tokens.map Token.lexeme) tree) :
    Postfix.ofTokens tokens = .ok tree.postorder := by
  have accommodates : Accommodates .sum (tokens.map Token.lexeme) [] :=
    ⟨fun _ _ _ isTop => (nomatch isTop), fun _ => rfl⟩
  obtain ⟨emitted, waiting, ran, listed, -⟩ := run_of_derives derived rfl accommodates
  rw [List.append_nil] at ran
  rw [Postfix.ofTokens, State.initial, items_eq_run, ran, ← listed]
  change (finish ⟨Pending.block waiting, false⟩).bind _ = _
  rw [finish_block]
  rfl

/-- The tokens of a phrase have the postorder of its tree, and evaluate as the tree does. -/
theorem postfix_and_value_of_derives {bare : Bool} {tokens : List Token} {tree : Expression}
    (derived : Derives .sum bare (tokens.map Token.lexeme) tree) :
    Postfix.ofTokens tokens = .ok tree.postorder ∧ Evaluation.ofTokens tokens = tree.evaluate := by
  have ordered := items_of_derives derived
  refine ⟨ordered, ?_⟩
  rw [Evaluation.ofTokens, ordered]
  exact tree.evaluate_postorder

/-- The tokens of `2*-(3+1)^ln8`, where the negation takes the whole power and the exponent is a
    bare call. -/
def negatedPower : List Token :=
  [⟨.number 2, ⟨0, 1⟩⟩, ⟨.operator .multiply, ⟨1, 2⟩⟩, ⟨.operator .subtract, ⟨2, 3⟩⟩,
    ⟨.leftParen, ⟨3, 4⟩⟩, ⟨.number 3, ⟨4, 5⟩⟩, ⟨.operator .add, ⟨5, 6⟩⟩, ⟨.number 1, ⟨6, 7⟩⟩,
    ⟨.rightParen, ⟨7, 8⟩⟩, ⟨.operator .power, ⟨8, 9⟩⟩, ⟨.word "ln", ⟨9, 11⟩⟩,
    ⟨.number 8, ⟨11, 12⟩⟩]

theorem postfix_and_value_of_negatedPower :
    Postfix.ofTokens negatedPower =
        .ok [.number 2, .number 3, .number 1, .operator .add, .number 8, .function .ln,
          .operator .power, .negation, .operator .multiply] ∧
      Evaluation.ofTokens negatedPower =
        (Expression.binary .multiply (.number 2) (.negate (.binary .power
          (.binary .add (.number 3) (.number 1)) (.call .ln (.number 8))))).evaluate := by
  have number (value : Float) : Derives .sign false [.number value] (.number value) :=
    .ofPower (.ofAtom (.number value))
  have base := Derives.group (.add (.inl rfl) (.ofProduct (.ofSign (number 3))) (.ofSign (number 1)))
  have exponent := Derives.bareCall .ln (.ofProduct (.ofSign (number 8))) (by decide)
  have power := Derives.raise base (.ofPower (.ofAtom exponent))
  have product := Derives.multiply (.inl rfl) (.ofSign (number 2)) (.negate (.ofPower power))
  have derived : Derives .sum true (negatedPower.map Token.lexeme) _ := .ofProduct product
  exact postfix_and_value_of_derives derived

end Keypad.Expression
