import Keypad.Postfix

/-!
# Runs of the postfix machine

What a sequence of tokens puts out and leaves pending, so that a sequence can be cut anywhere. The
stack falls into blocks of items between open groups: an operator releases items of the innermost
block only, and a closing parenthesis takes the whole of it. Nothing below an open group is seen
from inside (`run_frame`), which makes a group one operand wherever it stands (`run_group`).
-/

namespace Keypad.Postfix

/-- Pending entries without an open group. -/
abbrev Pending.block (items : List Item) : List Pending :=
  items.map .item

/-- A function in front of a group leaves the stack with it. -/
def Pending.applied : List Pending → List Item × List Pending
  | .item (.function f) :: outer => ([.function f], outer)
  | outer => ([], outer)

namespace State

/-- The items that tokens put out, and the state behind them. -/
def run : State → List Token → Except Failure (List Item × State)
  | state, [] => .ok ([], state)
  | state, token :: later => do
    let (emitted, next) ← state.step token
    let (rest, last) ← next.run later
    return (emitted ++ rest, last)

@[simp] theorem run_nil (state : State) : state.run [] = .ok ([], state) := rfl

theorem run_append (state : State) (tokens later : List Token) :
    state.run (tokens ++ later) = do
      let (emitted, middle) ← state.run tokens
      let (rest, last) ← middle.run later
      return (emitted ++ rest, last) := by
  induction tokens generalizing state with
  | nil =>
    change state.run later = (state.run later).bind _
    cases state.run later <;> rfl
  | cons token tokens inductionHypothesis =>
    simp only [List.cons_append, run, bind_assoc, inductionHypothesis, pure_bind, List.append_assoc]

theorem run_cons_ok {state next last : State} {token : Token} {later : List Token}
    {emitted rest : List Item} (stepped : state.step token = .ok (emitted, next))
    (continued : next.run later = .ok (rest, last)) :
    state.run (token :: later) = .ok (emitted ++ rest, last) := by
  rw [run, stepped]
  change (next.run later).bind _ = _
  rw [continued]
  rfl

theorem run_append_ok {state middle last : State} {tokens later : List Token}
    {emitted rest : List Item} (ran : state.run tokens = .ok (emitted, middle))
    (continued : middle.run later = .ok (rest, last)) :
    state.run (tokens ++ later) = .ok (emitted ++ rest, last) := by
  rw [run_append, ran]
  change (middle.run later).bind _ = _
  rw [continued]
  rfl

theorem run_cons_inv {state last : State} {token : Token} {later : List Token}
    {items : List Item} (ran : state.run (token :: later) = .ok (items, last)) :
    ∃ emitted next rest, state.step token = .ok (emitted, next) ∧
      next.run later = .ok (rest, last) ∧ items = emitted ++ rest := by
  rw [run] at ran
  obtain ⟨⟨emitted, next⟩, stepped, continued⟩ := ok_of_bind ran
  obtain ⟨⟨rest, final⟩, finished, result⟩ := ok_of_bind continued
  cases result
  exact ⟨emitted, next, rest, stepped, finished, rfl⟩

theorem items_append (state : State) (tokens later : List Token) :
    state.items (tokens ++ later) = do
      let (emitted, middle) ← state.run tokens
      let rest ← middle.items later
      return emitted ++ rest := by
  induction tokens generalizing state with
  | nil =>
    change state.items later = (state.items later).bind _
    cases state.items later <;> rfl
  | cons token tokens inductionHypothesis =>
    simp only [List.cons_append, items, run, bind_assoc, inductionHypothesis, pure_bind,
      List.append_assoc]

theorem items_eq_run (state : State) (tokens : List Token) :
    state.items tokens = do
      let (emitted, last) ← state.run tokens
      let rest ← last.finish
      return emitted ++ rest := by
  have appended := items_append state tokens []
  rwa [List.append_nil] at appended

theorem function_of_items {state : State} {tokens : List Token} {items : List Item}
    (ordered : state.items tokens = .ok items) {name : String}
    (member : .word name ∈ tokens.map Token.lexeme) : ∃ f : UnaryFunction, name = f.name := by
  induction tokens generalizing state items with
  | nil => cases member
  | cons token tokens inductionHypothesis =>
    rw [State.items] at ordered
    obtain ⟨⟨emitted, next⟩, stepped, continued⟩ := ok_of_bind ordered
    obtain ⟨rest, behind, -⟩ := ok_of_bind continued
    obtain here | later := List.mem_cons.mp member
    · simp only [step, ← here] at stepped
      split at stepped
      next f found => exact ⟨f, UnaryFunction.ofName?_eq_some_iff.mp found⟩
      next => cases stepped
    · exact inductionHypothesis behind later

/-! ## Blocks -/

theorem block_or_group (pending : List Pending) :
    (∃ items, pending = Pending.block items) ∨
      ∃ inner start outer, pending = Pending.block inner ++ .group start :: outer := by
  induction pending with
  | nil => exact .inl ⟨[], rfl⟩
  | cons top below inductionHypothesis =>
    cases top with
    | group start => exact .inr ⟨[], start, below, rfl⟩
    | item item =>
      obtain ⟨items, rfl⟩ | ⟨inner, start, outer, rfl⟩ := inductionHypothesis
      · exact .inl ⟨item :: items, rfl⟩
      · exact .inr ⟨item :: inner, start, outer, rfl⟩

theorem filterMap_block (items : List Item) :
    (Pending.block items).filterMap Pending.item? = items := by
  rw [Pending.block, List.filterMap_map]
  exact List.filterMap_some

theorem isItem_of_mem_block {items : List Item} :
    ∀ entry ∈ Pending.block items, entry.isItem = true := by
  intro entry member
  obtain ⟨item, -, rfl⟩ := List.mem_map.mp member
  rfl

theorem finish_block (items : List Item) (expects : Bool) :
    finish ⟨Pending.block items, expects⟩ = .ok items := by
  have noGroup : (Pending.block items).findSome? Pending.position? = none := by
    rw [List.findSome?_eq_none_iff]
    intro entry member
    obtain ⟨item, -, rfl⟩ := List.mem_map.mp member
    rfl
  simp only [finish, noGroup, filterMap_block]

theorem finish_group (inner : List Item) (start : Nat) (outer : List Pending) (expects : Bool) :
    finish ⟨Pending.block inner ++ .group start :: outer, expects⟩ =
      .error (.unclosedLeftParen start) := by
  have found : (Pending.block inner ++ .group start :: outer).findSome? Pending.position? =
      some start := by
    induction inner with
    | nil => rfl
    | cons item inner inductionHypothesis => exact inductionHypothesis
  simp only [finish, found]

theorem closeGroup_block (items : List Item) (expects : Bool) (position : Nat) :
    closeGroup ⟨Pending.block items, expects⟩ position = .error (.unmatchedRightParen position) := by
  have dropped : (Pending.block items ++ []).dropWhile Pending.isItem = [] :=
    List.dropWhile_append_of_pos isItem_of_mem_block
  rw [List.append_nil] at dropped
  simp only [closeGroup, dropped]

theorem closeGroup_group (inner : List Item) (start : Nat) (outer : List Pending) (expects : Bool)
    (position : Nat) :
    closeGroup ⟨Pending.block inner ++ .group start :: outer, expects⟩ position =
      .ok (inner ++ (Pending.applied outer).1, ⟨(Pending.applied outer).2, false⟩) := by
  have taken : (Pending.block inner ++ .group start :: outer).takeWhile Pending.isItem =
      Pending.block inner := by
    rw [List.takeWhile_append_of_pos isItem_of_mem_block]
    exact List.append_nil _
  have dropped : (Pending.block inner ++ .group start :: outer).dropWhile Pending.isItem =
      .group start :: outer := by
    rw [List.dropWhile_append_of_pos isItem_of_mem_block]
    rfl
  simp only [closeGroup, taken, dropped, filterMap_block]
  unfold Pending.applied
  split <;> simp_all

theorem release_eq (pending : List Pending) (expects : Bool) (op : Operator) :
    ∃ released rest, pending = Pending.block released ++ rest ∧
      release ⟨pending, expects⟩ op = (released, ⟨rest, expects⟩) := by
  induction pending with
  | nil => exact ⟨[], [], rfl, rfl⟩
  | cons top below inductionHypothesis =>
    cases claimed : top.claimsBefore op with
    | false => exact ⟨[], top :: below, rfl, by simp [release, claimed]⟩
    | true =>
      cases top with
      | group start => cases claimed
      | item item =>
        obtain ⟨released, rest, rfl, same⟩ := inductionHypothesis
        refine ⟨item :: released, rest, rfl, ?_⟩
        simp only [release, Prod.mk.injEq, State.mk.injEq, and_true] at same
        simp only [release, List.takeWhile_cons, List.dropWhile_cons, claimed, if_true, same,
          List.filterMap_cons_some (show Pending.item? (.item item) = some item from rfl)]

/-- An operator releases a block as far as it claims all of it, and what is below stays. -/
theorem release_block {waiting : List Item} {op : Operator}
    (claimed : ∀ item ∈ waiting, Pending.claimsBefore op (.item item) = true) {below : List Pending}
    (unclaimed : ∀ top ∈ below.head?, Pending.claimsBefore op top = false) (expects : Bool) :
    release ⟨Pending.block waiting ++ below, expects⟩ op = (waiting, ⟨below, expects⟩) := by
  have entries : ∀ entry ∈ Pending.block waiting, Pending.claimsBefore op entry = true := by
    intro entry member
    obtain ⟨item, among, rfl⟩ := List.mem_map.mp member
    exact claimed item among
  have stops : below.takeWhile (Pending.claimsBefore op) = [] ∧
      below.dropWhile (Pending.claimsBefore op) = below := by
    cases below with
    | nil => exact ⟨rfl, rfl⟩
    | cons top below =>
      have held := unclaimed top rfl
      simp [held]
  simp only [release, List.takeWhile_append_of_pos entries, List.dropWhile_append_of_pos entries,
    stops, List.append_nil, filterMap_block]

/-! ## What a step does -/

/-- The steps of the machine. An operator releases the items that claim its left operand, and a
    closing parenthesis all items of its group. -/
inductive Moves : State → Token → List Item → State → Prop where
  | number (pending : List Pending) (expects : Bool) (value : Float) (span : Span) :
      Moves ⟨pending, expects⟩ ⟨.number value, span⟩ [.number value] ⟨pending, false⟩
  | word (pending : List Pending) (expects : Bool) (f : UnaryFunction) (span : Span) :
      Moves ⟨pending, expects⟩ ⟨.word f.name, span⟩ [] ⟨.item (.function f) :: pending, true⟩
  | sign (pending : List Pending) {op : Operator} (subtracts : op.operation = .subtract)
      (span : Span) :
      Moves ⟨pending, true⟩ ⟨.operator op, span⟩ [] ⟨.item .negation :: pending, true⟩
  | infixed {released : List Item} {rest : List Pending} {expects : Bool} {op : Operator}
      (unsigned : (expects && op.operation == .subtract) = false)
      (release : State.release ⟨Pending.block released ++ rest, expects⟩ op =
        (released, ⟨rest, expects⟩)) (span : Span) :
      Moves ⟨Pending.block released ++ rest, expects⟩ ⟨.operator op, span⟩ released
        ⟨.item (.operator op) :: rest, true⟩
  | opening (pending : List Pending) (expects : Bool) (span : Span) :
      Moves ⟨pending, expects⟩ ⟨.leftParen, span⟩ [] ⟨.group span.start :: pending, true⟩
  | closing (inner : List Item) (start : Nat) (outer : List Pending) (expects : Bool)
      (span : Span) :
      Moves ⟨Pending.block inner ++ .group start :: outer, expects⟩ ⟨.rightParen, span⟩
        (inner ++ (Pending.applied outer).1) ⟨(Pending.applied outer).2, false⟩

theorem moves_of_step {state next : State} {token : Token} {emitted : List Item}
    (stepped : state.step token = .ok (emitted, next)) : Moves state token emitted next := by
  obtain ⟨pending, expects⟩ := state
  obtain ⟨lexeme, span⟩ := token
  cases lexeme with
  | number value =>
    cases stepped
    exact .number pending expects value span
  | leftParen =>
    cases stepped
    exact .opening pending expects span
  | word name =>
    simp only [step] at stepped
    split at stepped
    next f named =>
      cases stepped
      cases UnaryFunction.ofName?_eq_some_iff.mp named
      exact .word pending expects f span
    next => cases stepped
  | operator op =>
    simp only [step] at stepped
    split at stepped
    next negates =>
      cases stepped
      rw [Bool.and_eq_true, beq_iff_eq] at negates
      obtain ⟨rfl, subtracts⟩ := negates
      exact .sign pending subtracts span
    next unsigned =>
      obtain ⟨released, rest, rfl, release⟩ := release_eq pending expects op
      rw [release] at stepped
      cases stepped
      exact .infixed ((Bool.not_eq_true _).mp unsigned) release span
  | rightParen =>
    simp only [step] at stepped
    obtain ⟨items, rfl⟩ | ⟨inner, start, outer, rfl⟩ := block_or_group pending
    · rw [closeGroup_block] at stepped
      cases stepped
    · rw [closeGroup_group] at stepped
      cases stepped
      exact .closing inner start outer expects span

/-! ## Groups -/

theorem takeWhile_append_stop {α : Type} {test : α → Bool} {stop : α} (stops : test stop = false)
    (front back : List α) :
    (front ++ stop :: back).takeWhile test = front.takeWhile test := by
  induction front with
  | nil => simp [stops]
  | cons first front inductionHypothesis =>
    simp only [List.cons_append, List.takeWhile_cons, inductionHypothesis]

theorem dropWhile_append_stop {α : Type} {test : α → Bool} {stop : α} (stops : test stop = false)
    (front back : List α) :
    (front ++ stop :: back).dropWhile test = front.dropWhile test ++ stop :: back := by
  induction front with
  | nil => simp [stops]
  | cons first front inductionHypothesis =>
    simp only [List.cons_append, List.dropWhile_cons, inductionHypothesis]
    split <;> rfl

theorem applied_append_group (outer : List Pending) (start : Nat) (below : List Pending) :
    Pending.applied (outer ++ .group start :: below) =
      ((Pending.applied outer).1, (Pending.applied outer).2 ++ .group start :: below) := by
  match outer with
  | [] => rfl
  | .group _ :: _ => rfl
  | .item item :: _ => cases item <;> rfl

/-- An open group is claimed by no operator, so the release stops there at the latest. -/
theorem release_frame (pending : List Pending) (expects : Bool) (op : Operator) (start : Nat)
    (below : List Pending) :
    release ⟨pending ++ .group start :: below, expects⟩ op =
      ((release ⟨pending, expects⟩ op).1,
        ⟨(release ⟨pending, expects⟩ op).2.pending ++ .group start :: below, expects⟩) := by
  have held : Pending.claimsBefore op (.group start) = false := rfl
  simp only [release, takeWhile_append_stop held, dropWhile_append_stop held]

/-- Inside an open group a token does what it does at the bottom of the stack. -/
theorem step_frame {pending : List Pending} {expects : Bool} {token : Token} {emitted : List Item}
    {next : State} (stepped : step ⟨pending, expects⟩ token = .ok (emitted, next)) (start : Nat)
    (below : List Pending) :
    step ⟨pending ++ .group start :: below, expects⟩ token =
      .ok (emitted, ⟨next.pending ++ .group start :: below, next.expectsOperand⟩) := by
  cases moves_of_step stepped with
  | number | opening => rfl
  | word _ _ f => simp only [step, UnaryFunction.ofName?_name, await, List.cons_append]
  | sign _ subtracts =>
    simp only [step, subtracts]
    rfl
  | infixed unsigned release =>
    simp only [step, unsigned, release_frame, release]
    rfl
  | closing inner innerStart outer =>
    simp only [step, List.append_assoc, List.cons_append, closeGroup_group, applied_append_group]

theorem run_frame {state last : State} {tokens : List Token} {items : List Item}
    (ran : state.run tokens = .ok (items, last)) (start : Nat) (below : List Pending) :
    run ⟨state.pending ++ .group start :: below, state.expectsOperand⟩ tokens =
      .ok (items, ⟨last.pending ++ .group start :: below, last.expectsOperand⟩) := by
  induction tokens generalizing state items with
  | nil =>
    cases ran
    rfl
  | cons token tokens inductionHypothesis =>
    obtain ⟨emitted, next, rest, stepped, continued, rfl⟩ := run_cons_inv ran
    exact run_cons_ok (step_frame stepped start below) (inductionHypothesis continued)

theorem run_of_items {state : State} {tokens : List Token} {items : List Item}
    (ordered : state.items tokens = .ok items) :
    ∃ emitted waiting expects, state.run tokens = .ok (emitted, ⟨Pending.block waiting, expects⟩) ∧
      items = emitted ++ waiting := by
  rw [items_eq_run] at ordered
  obtain ⟨⟨emitted, pending, expects⟩, ran, finished⟩ := ok_of_bind ordered
  obtain ⟨rest, finishes, result⟩ := ok_of_bind finished
  cases result
  obtain ⟨waiting, rfl⟩ | ⟨inner, start, outer, rfl⟩ := block_or_group pending
  · rw [finish_block] at finishes
    cases finishes
    exact ⟨emitted, rest, expects, ran, rfl⟩
  · rw [finish_group] at finishes
    cases finishes

theorem run_enclosed {opening closing : Token} {inside : List Token} {below : List Pending}
    {emitted waiting : List Item} {expects : Bool}
    (ran : run ⟨.group opening.span.start :: below, true⟩ inside =
      .ok (emitted, ⟨Pending.block waiting ++ .group opening.span.start :: below, expects⟩))
    (opens : opening.lexeme = .leftParen) (closes : closing.lexeme = .rightParen) (before : Bool) :
    run ⟨below, before⟩ (opening :: inside ++ [closing]) =
      .ok (emitted ++ waiting ++ (Pending.applied below).1, ⟨(Pending.applied below).2, false⟩) := by
  have opened : step ⟨below, before⟩ opening =
      .ok ([], ⟨.group opening.span.start :: below, true⟩) := by
    simp only [step, opens]
  have closed : step ⟨Pending.block waiting ++ .group opening.span.start :: below, expects⟩ closing =
      .ok (waiting ++ (Pending.applied below).1, ⟨(Pending.applied below).2, false⟩) := by
    simp only [step, closes, closeGroup_group]
  have whole := run_cons_ok opened (run_append_ok ran (run_cons_ok closed (run_nil _)))
  rwa [List.nil_append, List.append_nil, ← List.append_assoc] at whole

/-- A group puts out the items of its inside, wherever it stands. -/
theorem run_group {inside : List Token} {items : List Item}
    (ordered : ofTokens inside = .ok items) {opening closing : Token}
    (opens : opening.lexeme = .leftParen) (closes : closing.lexeme = .rightParen) (state : State) :
    state.run (opening :: inside ++ [closing]) =
      .ok (items ++ (Pending.applied state.pending).1,
        ⟨(Pending.applied state.pending).2, false⟩) := by
  obtain ⟨emitted, waiting, expects, ran, rfl⟩ := run_of_items ordered
  exact run_enclosed (run_frame ran opening.span.start state.pending) opens closes _

end State

end Keypad.Postfix
