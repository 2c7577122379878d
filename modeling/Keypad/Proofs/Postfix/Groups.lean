import Keypad.Proofs.Postfix.Run

/-!
# Open groups

Of all that is pending, only the open groups can keep tokens from being put into postfix order, and
only words and parentheses change them. Hence the order fails exactly if following the open groups
alone does (`ofTokens_eq_error_iff`), whatever the numbers and operators are (`error_of_skeleton`).
-/

namespace Keypad

/-- Words and parentheses, unlike numbers and operators. -/
def Lexeme.isStructural : Lexeme → Bool
  | number _ => false
  | operator _ => false
  | _ => true

namespace Postfix

/-- What a token does to the positions of the open groups, innermost first. -/
def nest (groups : List Nat) (token : Token) : Except Failure (List Nat) :=
  match token.lexeme, groups with
  | .number _, _ => .ok groups
  | .operator _, _ => .ok groups
  | .word name, _ =>
    match UnaryFunction.ofName? name with
    | some _ => .ok groups
    | none => .error (.unknownFunction name)
  | .leftParen, _ => .ok (token.span.start :: groups)
  | .rightParen, [] => .error (.unmatchedRightParen token.span.start)
  | .rightParen, _ :: outer => .ok outer

/-- Whether no group is left open at the end. -/
def settle : List Nat → Except Failure Unit
  | [] => .ok ()
  | position :: _ => .error (.unclosedLeftParen position)

namespace Pending

/-- The positions of the open groups among pending entries. -/
def groups (pending : List Pending) : List Nat :=
  pending.filterMap position?

@[simp] theorem groups_group (start : Nat) (below : List Pending) :
    groups (group start :: below) = start :: groups below := rfl

@[simp] theorem groups_block_append (items : List Item) (below : List Pending) :
    groups (block items ++ below) = groups below := by
  induction items with
  | nil => rfl
  | cons item items inductionHypothesis => exact inductionHypothesis

theorem groups_block (items : List Item) : groups (block items) = [] := by
  have appended := groups_block_append items []
  rwa [List.append_nil] at appended

theorem groups_applied (outer : List Pending) : groups (applied outer).2 = groups outer := by
  match outer with
  | [] => rfl
  | .group _ :: _ => rfl
  | .item entry :: _ => cases entry <;> rfl

end Pending

namespace State

theorem nest_step (state : State) (token : Token) :
    (state.step token).map (fun result => Pending.groups result.2.pending) =
      nest (Pending.groups state.pending) token := by
  obtain ⟨pending, expects⟩ := state
  obtain ⟨lexeme, span⟩ := token
  cases lexeme with
  | number value => rfl
  | leftParen => rfl
  | word name =>
    simp only [step, nest]
    cases UnaryFunction.ofName? name <;> rfl
  | operator op =>
    simp only [step, nest]
    split
    · rfl
    · obtain ⟨released, rest, rfl, release⟩ := release_eq pending expects op
      rw [release, Pending.groups_block_append]
      rfl
  | rightParen =>
    simp only [step, nest]
    obtain ⟨items, rfl⟩ | ⟨inner, start, outer, rfl⟩ := block_or_group pending
    · rw [closeGroup_block, Pending.groups_block]
      rfl
    · rw [closeGroup_group, Pending.groups_block_append, Pending.groups_group]
      exact congrArg Except.ok (Pending.groups_applied outer)

theorem settle_finish (state : State) :
    state.finish.map (fun _ => ()) = settle (Pending.groups state.pending) := by
  obtain ⟨pending, expects⟩ := state
  obtain ⟨items, rfl⟩ | ⟨inner, start, outer, rfl⟩ := block_or_group pending
  · rw [finish_block, Pending.groups_block]
    rfl
  · rw [finish_group, Pending.groups_block_append]
    rfl

/-- Apart from the items, only the open groups matter. -/
theorem nest_items (state : State) (tokens : List Token) :
    (state.items tokens).map (fun _ => ()) =
      (tokens.foldlM nest (Pending.groups state.pending)) >>= settle := by
  induction tokens generalizing state with
  | nil => exact settle_finish state
  | cons token tokens inductionHypothesis =>
    rw [items, List.foldlM_cons, ← nest_step]
    cases state.step token with
    | error failure => rfl
    | ok result =>
      obtain ⟨emitted, next⟩ := result
      change ((next.items tokens).bind _).map _ = (tokens.foldlM nest _) >>= settle
      rw [← inductionHypothesis]
      cases next.items tokens <;> rfl

end State

theorem ofTokens_eq_error_iff {tokens : List Token} {failure : Failure} :
    ofTokens tokens = .error failure ↔ tokens.foldlM nest [] = .error failure ∨
      ∃ position outer, tokens.foldlM nest [] = .ok (position :: outer) ∧
        failure = .unclosedLeftParen position := by
  rw [← map_eq_error_iff (f := fun _ => ()), ofTokens, State.nest_items]
  change tokens.foldlM nest [] >>= settle = _ ↔ _
  constructor
  · intro failed
    obtain early | ⟨groups, ran, unsettled⟩ := error_of_bind failed
    · exact .inl early
    · cases groups with
      | nil => cases unsettled
      | cons position outer =>
        cases unsettled
        exact .inr ⟨position, outer, ran, rfl⟩
  · rintro (early | ⟨position, outer, ran, rfl⟩)
    · rw [early]
      rfl
    · rw [ran]
      rfl

theorem exists_ofTokens_iff {tokens : List Token} :
    (∃ items, ofTokens tokens = .ok items) ↔ tokens.foldlM nest [] = .ok [] := by
  constructor
  · rintro ⟨items, ordered⟩
    cases ran : tokens.foldlM nest [] with
    | error failure =>
      rw [ofTokens_eq_error_iff.mpr (.inl ran)] at ordered
      cases ordered
    | ok groups =>
      cases groups with
      | nil => rfl
      | cons position outer =>
        rw [ofTokens_eq_error_iff.mpr (.inr ⟨position, outer, ran, rfl⟩)] at ordered
        cases ordered
  · intro ran
    cases ordered : ofTokens tokens with
    | ok items => exact ⟨items, rfl⟩
    | error failure =>
      obtain early | ⟨position, outer, left, -⟩ := ofTokens_eq_error_iff.mp ordered
      · rw [ran] at early
        cases early
      · rw [ran] at left
        cases left

/-- The words and parentheses among tokens. -/
def skeleton (tokens : List Token) : List Token :=
  tokens.filter fun token => token.lexeme.isStructural

/-- Numbers and operators leave the open groups as they are. -/
theorem foldlM_nest_skeleton (tokens : List Token) (groups : List Nat) :
    (skeleton tokens).foldlM nest groups = tokens.foldlM nest groups := by
  induction tokens generalizing groups with
  | nil => rfl
  | cons token tokens inductionHypothesis =>
    cases structural : token.lexeme.isStructural with
    | true =>
      simp only [skeleton, List.filter_cons, structural, if_true, List.foldlM_cons]
      exact bind_congr inductionHypothesis
    | false =>
      have unchanged : nest groups token = .ok groups := by
        obtain ⟨lexeme, span⟩ := token
        cases lexeme with
        | number value | operator op => rfl
        | leftParen | rightParen | word name => cases structural
      simp only [skeleton, List.filter_cons, structural, Bool.false_eq_true, if_false,
        List.foldlM_cons, unchanged]
      exact inductionHypothesis groups

theorem error_of_skeleton {tokens other : List Token} (same : skeleton other = skeleton tokens)
    (failure : Failure) : ofTokens other = .error failure ↔ ofTokens tokens = .error failure := by
  rw [ofTokens_eq_error_iff, ofTokens_eq_error_iff, ← foldlM_nest_skeleton tokens, ← same,
    foldlM_nest_skeleton]

end Postfix

end Keypad
