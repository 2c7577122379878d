import Keypad.Proofs.Postfix.Rearrangement

/-!
# Groups and calls as operands

Behind an operand the machine is in one state, whatever the operand is: what was pending in front of
it is pending again, and no operand comes next. A number, a group and a call of a function with a
group all do no more than put out their items. So they can be exchanged for each other, with the
items of one in the place of the items of the other (`operand_exchange`).
-/

namespace Keypad.Postfix

/-- What is put out in front of an operand and behind it. -/
structure Surroundings where
  front : List Item
  back : List Item
deriving DecidableEq, Repr

def Surroundings.around (surroundings : Surroundings) (operand : List Item) : List Item :=
  surroundings.front ++ operand ++ surroundings.back

/-- What tokens put out around an operand between them. -/
def surroundings (before after : List Token) : Except Failure Surroundings := do
  let (front, middle) ← State.initial.run before
  let back ← State.items ⟨middle.pending, false⟩ after
  return ⟨front, back⟩

/-- Tokens are an operand in a state if they put out items and leave what is pending as it is. -/
def State.Reads (state : State) (operand : List Token) (items : List Item) : Prop :=
  state.run operand = .ok (items, ⟨state.pending, false⟩)

theorem ofTokens_around {before operand : List Token} {items : List Item}
    (reads : ∀ emitted middle, State.initial.run before = .ok (emitted, middle) →
      middle.Reads operand items) (after : List Token) :
    ofTokens (before ++ (operand ++ after)) =
      (surroundings before after).map fun outside => outside.around items := by
  rw [ofTokens, State.items_append, surroundings]
  cases ran : State.initial.run before with
  | error failure => rfl
  | ok result =>
    obtain ⟨front, middle⟩ := result
    change (middle.items (operand ++ after) >>= fun rest => pure (front ++ rest)) =
      Except.map (fun outside => outside.around items)
        (State.items ⟨middle.pending, false⟩ after >>= fun back => pure (Surroundings.mk front back))
    rw [State.items_append, reads front middle ran]
    change ((State.items ⟨middle.pending, false⟩ after >>= fun rest => pure (items ++ rest)) >>=
      fun rest => pure (front ++ rest)) = _
    cases State.items ⟨middle.pending, false⟩ after with
    | error failure => rfl
    | ok back =>
      change Except.ok (front ++ (items ++ back)) = Except.ok (front ++ items ++ back)
      rw [List.append_assoc]

theorem front_of_surroundings {before after : List Token} {outside : Surroundings}
    (found : surroundings before after = .ok outside) :
    outside.front.filterMap Item.number? = before.filterMap fun token => token.lexeme.number? := by
  rw [surroundings] at found
  obtain ⟨⟨front, middle⟩, ran, continued⟩ := ok_of_bind found
  obtain ⟨back, behind, result⟩ := ok_of_bind continued
  cases result
  exact numbers_of_run ran

/-! ## Operands -/

theorem State.reads_number (state : State) (value : Float) (span : Span) :
    state.Reads [⟨.number value, span⟩] [.number value] := rfl

theorem State.reads_group {inside : List Token} {items : List Item}
    (ordered : ofTokens inside = .ok items) {state : State}
    (unapplied : Pending.applied state.pending = ([], state.pending)) (opening closing : Span) :
    state.Reads (⟨.leftParen, opening⟩ :: inside ++ [⟨.rightParen, closing⟩]) items := by
  rw [State.Reads, State.run_group ordered rfl rfl, unapplied, List.append_nil]

/-- The function waits below the group and leaves with it. -/
theorem State.reads_call {inside : List Token} {items : List Item}
    (ordered : ofTokens inside = .ok items) (state : State) (f : UnaryFunction)
    (word opening closing : Span) :
    state.Reads
      (⟨.word f.name, word⟩ :: (⟨.leftParen, opening⟩ :: inside ++ [⟨.rightParen, closing⟩]))
      (items ++ [.function f]) := by
  have named : state.step ⟨.word f.name, word⟩ = .ok ([], state.await (.function f)) := by
    simp only [State.step, UnaryFunction.ofName?_name]
  have grouped : (state.await (.function f)).run
      (⟨.leftParen, opening⟩ :: inside ++ [⟨.rightParen, closing⟩]) =
        .ok (items ++ [.function f], ⟨state.pending, false⟩) := by
    rw [State.run_group ordered rfl rfl]
    rfl
  have called := State.run_cons_ok named grouped
  rwa [List.nil_append] at called

/-- No function waits on top behind an operator or an open group, nor at the start. -/
theorem applied_of_run {before : List Token}
    (position : ∀ last ∈ before.getLast?,
      last.lexeme = .leftParen ∨ ∃ op, last.lexeme = .operator op)
    {emitted : List Item} {middle : State}
    (ran : State.initial.run before = .ok (emitted, middle)) :
    Pending.applied middle.pending = ([], middle.pending) := by
  obtain rfl | ⟨front, last, rfl⟩ := List.eq_nil_or_concat before
  · cases ran
    rfl
  · rw [List.concat_eq_append] at ran position
    rw [State.run_append] at ran
    obtain ⟨⟨earlier, state⟩, -, continued⟩ := ok_of_bind ran
    obtain ⟨⟨rest, final⟩, stepped, result⟩ := ok_of_bind continued
    cases result
    obtain ⟨emitted, next, later, stepped, ended, rfl⟩ := State.run_cons_inv stepped
    cases ended
    obtain opens | ⟨op, infixed⟩ := position last (by simp)
    · simp only [State.step, opens] at stepped
      cases stepped
      rfl
    · simp only [State.step, infixed] at stepped
      split at stepped <;> cases stepped <;> rfl

/-- Tokens put out the same around a number, around a group and around a call, or fail in the same
    way. The group stands for the items of its inside, if it is at the start or behind an operator or
    an opening parenthesis. The call stands for these items and its function, and may be anywhere. -/
theorem operand_exchange {inside : List Token} {items : List Item}
    (ordered : ofTokens inside = .ok items) (before after : List Token) :
    ∃ outcome : Except Failure Surroundings,
      (∀ value span, ofTokens (before ++ (⟨.number value, span⟩ :: after)) =
        outcome.map fun outside => outside.around [.number value]) ∧
      (∀ outside, outcome = .ok outside → outside.front.filterMap Item.number? =
        before.filterMap fun token => token.lexeme.number?) ∧
      ((∀ last ∈ before.getLast?, last.lexeme = .leftParen ∨ ∃ op, last.lexeme = .operator op) →
        ∀ opening closing, ofTokens (before ++
            (⟨.leftParen, opening⟩ :: inside ++ [⟨.rightParen, closing⟩] ++ after)) =
          outcome.map fun outside => outside.around items) ∧
      (∀ (f : UnaryFunction) word opening closing, ofTokens (before ++
          (⟨.word f.name, word⟩ :: ⟨.leftParen, opening⟩ :: inside ++ [⟨.rightParen, closing⟩] ++
            after)) =
        outcome.map fun outside => outside.around (items ++ [.function f])) := by
  refine ⟨surroundings before after, ?_, fun outside => front_of_surroundings, ?_, ?_⟩
  · intro value span
    exact ofTokens_around (fun _ middle _ => middle.reads_number value span) after
  · intro position opening closing
    exact ofTokens_around (fun _ _ ran =>
      State.reads_group ordered (applied_of_run position ran) opening closing) after
  · intro f word opening closing
    exact ofTokens_around (fun _ middle _ =>
      State.reads_call ordered middle f word opening closing) after

/-- The tokens of `7-4`. -/
def difference : List Token :=
  [⟨.number 7, ⟨0, 1⟩⟩, ⟨.operator .subtract, ⟨1, 2⟩⟩, ⟨.number 4, ⟨2, 3⟩⟩]

/-- Behind a bare function and a sign, and in front of a power. -/
theorem operand_exchange_of_difference :
    let before : List Token := [⟨.word "ln", ⟨0, 2⟩⟩, ⟨.operator .subtract, ⟨2, 3⟩⟩]
    let after : List Token := [⟨.operator .power, ⟨8, 9⟩⟩, ⟨.number 2, ⟨9, 10⟩⟩]
    ofTokens difference = .ok [.number 7, .number 4, .operator .subtract] ∧
      (∀ last ∈ before.getLast?, last.lexeme = .leftParen ∨ ∃ op, last.lexeme = .operator op) ∧
      ∃ outside : Surroundings,
        outside.around [.number 5] =
          [.number 5, .number 2, .operator .power, .negation, .function .ln] ∧
        outside.front.filterMap Item.number? = [] ∧
        ofTokens (before ++ (⟨.leftParen, ⟨3, 4⟩⟩ :: difference ++ [⟨.rightParen, ⟨7, 8⟩⟩] ++ after)) =
          .ok (outside.around [.number 7, .number 4, .operator .subtract]) ∧
        ofTokens (before ++ (⟨.word "sin", ⟨3, 6⟩⟩ :: ⟨.leftParen, ⟨6, 7⟩⟩ :: difference ++
            [⟨.rightParen, ⟨7, 8⟩⟩] ++ after)) =
          .ok (outside.around [.number 7, .number 4, .operator .subtract, .function .sin]) := by
  intro before after
  have ordered : ofTokens difference = .ok [.number 7, .number 4, .operator .subtract] := rfl
  have position : ∀ last ∈ before.getLast?,
      last.lexeme = .leftParen ∨ ∃ op, last.lexeme = .operator op := by
    intro last isLast
    cases isLast
    exact .inr ⟨.subtract, rfl⟩
  obtain ⟨outcome, number, front, group, call⟩ := operand_exchange ordered before after
  have read : ofTokens (before ++ (⟨.number 5, ⟨3, 8⟩⟩ :: after)) =
      .ok [.number 5, .number 2, .operator .power, .negation, .function .ln] := rfl
  rw [number] at read
  obtain ⟨outside, rfl, around⟩ := map_eq_ok_iff.mp read
  exact ⟨ordered, position, outside, around, front outside rfl, group position _ _,
    call .sin _ _ _⟩

end Keypad.Postfix
