import Keypad.Evaluation
import Keypad.Proofs.Postfix.Balance

/-!
# Items in another order

Putting tokens into postfix order changes nothing but the order. Every token that is no parenthesis
has one item, which is put out at once if it is a number and waits on the stack if it is not
(`items_of_step`). So numbers keep their order, no operation overtakes a number in front of it, and
the order is a rearrangement of the items (`items_rearranged`).
-/

namespace Keypad

namespace Postfix

namespace Item

def number? : Item → Option Float
  | number value => some value
  | _ => none

def isBinary : Item → Bool
  | operator _ => true
  | _ => false

end Item

end Postfix

open Postfix (Item)

namespace Lexeme

def isParenthesis : Lexeme → Bool
  | leftParen => true
  | rightParen => true
  | _ => false

def number? : Lexeme → Option Float
  | number value => some value
  | _ => none

/-- The item of a lexeme behind another one, or at the start. A subtraction is a negation unless an
    operand ends in front of it. Parentheses have no items. -/
def item? (previous : Option Lexeme) : Lexeme → Option Item
  | number value => some (.number value)
  | word name => (UnaryFunction.ofName? name).map .function
  | operator op =>
    if op.operation == .subtract && !previous.any endsOperand then some .negation
    else some (.operator op)
  | leftParen => none
  | rightParen => none

theorem number?_item? (previous : Option Lexeme) (lexeme : Lexeme) :
    (lexeme.item? previous).bind Item.number? = lexeme.number? := by
  cases lexeme with
  | number value | leftParen | rightParen => rfl
  | word name =>
    rw [item?]
    cases UnaryFunction.ofName? name <;> rfl
  | operator op =>
    rw [item?]
    split <;> rfl

theorem isSome_item? (previous : Option Lexeme) {lexeme : Lexeme}
    (named : ∀ name, lexeme = .word name → ∃ f : UnaryFunction, name = f.name) :
    (lexeme.item? previous).isSome = !lexeme.isParenthesis := by
  cases lexeme with
  | number value | leftParen | rightParen => rfl
  | word name =>
    obtain ⟨f, rfl⟩ := named name rfl
    rw [item?, UnaryFunction.ofName?_name]
    rfl
  | operator op =>
    rw [item?]
    split <;> rfl

end Lexeme

namespace Postfix

/-! ## What a step moves -/

/-- A number is put out. Every other token waits on the stack, and what it puts out was waiting on top
    of what stays. -/
theorem items_of_step {state next : State} {token : Token} {emitted : List Item}
    (stepped : state.step token = .ok (emitted, next)) {previous : Option Lexeme}
    (reads : state.expectsOperand = !previous.any Lexeme.endsOperand) :
    (∃ value, token.lexeme = .number value ∧ emitted = [.number value] ∧
      Pending.items next.pending = Pending.items state.pending) ∨
    (token.lexeme.number? = none ∧ ∃ kept, Pending.items state.pending = emitted ++ kept ∧
      Pending.items next.pending = (token.lexeme.item? previous).toList ++ kept) := by
  cases State.moves_of_step stepped with
  | number pending expects value span => exact .inl ⟨value, rfl, rfl, rfl⟩
  | word pending expects f span =>
    refine .inr ⟨rfl, Pending.items pending, rfl, ?_⟩
    rw [Lexeme.item?, UnaryFunction.ofName?_name]
    rfl
  | @sign pending op subtracts span =>
    refine .inr ⟨rfl, Pending.items pending, rfl, ?_⟩
    rw [Lexeme.item?, ← reads, subtracts]
    rfl
  | @infixed released rest expects op unsigned release span =>
    refine .inr ⟨rfl, Pending.items rest, Pending.items_block_append _ _, ?_⟩
    rw [Lexeme.item?, ← reads, Bool.and_comm, unsigned]
    rfl
  | opening pending expects span => exact .inr ⟨rfl, Pending.items pending, rfl, rfl⟩
  | closing inner start outer expects span =>
    refine .inr ⟨rfl, Pending.items (Pending.applied outer).2, ?_, rfl⟩
    rw [Pending.items_block_append, Pending.items_group, Pending.items_applied, List.append_assoc]

/-! ## The order of items -/

/-- An item and the place of its token. -/
structure Placed where
  place : Nat
  item : Item
deriving DecidableEq, Repr

namespace Placed

def number? (entry : Placed) : Option Float :=
  entry.item.number?

/-- Nothing is put out in front of a number that stands to its left. -/
def InTurn (earlier later : Placed) : Prop :=
  later.number?.isSome = true → earlier.place < later.place

end Placed

/-- The items of tokens behind a lexeme, or at the start, with places counted from the first token
    on. -/
def placed (previous : Option Lexeme) (place : Nat) : List Token → List Placed
  | [] => []
  | token :: later =>
    ((token.lexeme.item? previous).map (Placed.mk place)).toList ++
      placed (some token.lexeme) (place + 1) later

theorem numbers_placed (previous : Option Lexeme) (place : Nat) (tokens : List Token) :
    (placed previous place tokens).filterMap Placed.number? =
      tokens.filterMap fun token => token.lexeme.number? := by
  induction tokens generalizing previous place with
  | nil => rfl
  | cons token tokens inductionHypothesis =>
    rw [placed, List.filterMap_append, inductionHypothesis, List.filterMap_cons,
      ← Lexeme.number?_item? previous]
    cases token.lexeme.item? previous with
    | none => rfl
    | some item =>
      simp only [Option.map_some, Option.toList_some, Option.bind_some, List.filterMap_cons,
        List.filterMap_nil, Placed.number?]
      cases item.number? <;> rfl

theorem length_placed {tokens : List Token}
    (named : ∀ name, .word name ∈ tokens.map Token.lexeme → ∃ f : UnaryFunction, name = f.name)
    (previous : Option Lexeme) (place : Nat) :
    (placed previous place tokens).length =
      tokens.countP fun token => !token.lexeme.isParenthesis := by
  induction tokens generalizing previous place with
  | nil => rfl
  | cons token tokens inductionHypothesis =>
    have here : (token.lexeme.item? previous).isSome = !token.lexeme.isParenthesis :=
      Lexeme.isSome_item? previous fun name same => named name (same ▸ List.mem_cons_self)
    have behind := inductionHypothesis (fun name member => named name (List.mem_cons_of_mem _ member))
      (some token.lexeme) (place + 1)
    rw [placed, List.length_append, behind, List.countP_cons, ← here, Nat.add_comm]
    cases token.lexeme.item? previous <;> rfl

/-- Items that were waiting and items that arrive from a place on, in the order in which they are put
    out, and those that are left waiting. -/
structure Arranged (place : Nat) (waiting arriving order left : List Placed) : Prop where
  perm : (order ++ left).Perm (waiting ++ arriving)
  inTurn : order.Pairwise Placed.InTurn
  numbers : order.filterMap Placed.number? = arriving.filterMap Placed.number?
  arrived : ∀ entry ∈ order, entry.number?.isSome = true → place ≤ entry.place
  operations : ∀ entry ∈ left, entry.number? = none

theorem Arranged.append {place next : Nat}
    {waiting arriving order middle later rest left : List Placed}
    (first : Arranged place waiting arriving order middle)
    (second : Arranged next middle later rest left) (onwards : place ≤ next)
    (before : ∀ entry ∈ order, entry.place < next) :
    Arranged place waiting (arriving ++ later) (order ++ rest) left where
  perm := by
    rw [List.append_assoc, ← List.append_assoc waiting]
    refine (second.perm.append_left order).trans ?_
    rw [← List.append_assoc]
    exact first.perm.append_right later
  inTurn := by
    refine List.pairwise_append.mpr ⟨first.inTurn, second.inTurn, ?_⟩
    intro entry member number among isNumber
    exact Nat.lt_of_lt_of_le (before entry member) (second.arrived number among isNumber)
  numbers := by
    rw [List.filterMap_append, List.filterMap_append, first.numbers, second.numbers]
  arrived := by
    intro entry member isNumber
    obtain front | behind := List.mem_append.mp member
    · exact first.arrived entry front isNumber
    · exact Nat.le_trans onwards (second.arrived entry behind isNumber)
  operations := second.operations

theorem arranged_of_step {state next : State} {token : Token} {emitted : List Item}
    (stepped : state.step token = .ok (emitted, next)) {previous : Option Lexeme}
    (reads : state.expectsOperand = !previous.any Lexeme.endsOperand) (place : Nat)
    {waiting : List Placed} (listed : waiting.map Placed.item = Pending.items state.pending)
    (operations : ∀ entry ∈ waiting, entry.number? = none) :
    ∃ order left, order.map Placed.item = emitted ∧
      left.map Placed.item = Pending.items next.pending ∧
      Arranged place waiting ((token.lexeme.item? previous).map (Placed.mk place)).toList
        order left := by
  obtain ⟨value, isNumber, rfl, kept⟩ | ⟨isOperation, kept, parted, stacked⟩ :=
    items_of_step stepped reads
  · rw [isNumber]
    refine ⟨[⟨place, .number value⟩], waiting, rfl, listed.trans kept.symm, ?_⟩
    exact {
      perm := List.perm_append_comm
      inTurn := List.pairwise_singleton _ _
      numbers := rfl
      arrived := by
        intro entry member _
        cases List.mem_singleton.mp member
        exact Nat.le_refl place
      operations := operations }
  · rw [parted] at listed
    obtain ⟨order, stays, rfl, leaves, keeps⟩ := List.map_eq_append_iff.mp listed
    have own : ∀ entry ∈ ((token.lexeme.item? previous).map (Placed.mk place)).toList,
        entry.number? = none := by
      intro entry member
      rw [Option.mem_toList, Option.map_eq_some_iff] at member
      obtain ⟨item, found, rfl⟩ := member
      have number := Lexeme.number?_item? previous token.lexeme
      rwa [found, isOperation] at number
    have leaving : ∀ entry ∈ order, entry.number? = none :=
      fun entry member => operations entry (List.mem_append_left _ member)
    refine ⟨order, ((token.lexeme.item? previous).map (Placed.mk place)).toList ++ stays, leaves, ?_, ?_⟩
    · rw [stacked, List.map_append, keeps]
      cases token.lexeme.item? previous <;> rfl
    · exact {
        perm := by
          rw [List.append_assoc]
          exact List.perm_append_comm.append_left order
        inTurn := by
          apply List.pairwise_of_forall_mem_list
          intro earlier _ later member isNumber
          rw [leaving later member] at isNumber
          cases isNumber
        numbers := by
          rw [List.filterMap_eq_nil_iff.mpr leaving, List.filterMap_eq_nil_iff.mpr own]
        arrived := by
          intro entry member isNumber
          rw [leaving entry member] at isNumber
          cases isNumber
        operations := by
          intro entry member
          obtain arriving | staying := List.mem_append.mp member
          · exact own entry arriving
          · exact operations entry (List.mem_append_right _ staying) }

theorem Arranged.place_lt {place bound : Nat} {waiting arriving order left : List Placed}
    (arranged : Arranged place waiting arriving order left)
    (earlier : ∀ entry ∈ waiting ++ arriving, entry.place < bound) :
    ∀ entry ∈ order ++ left, entry.place < bound :=
  fun entry member => earlier entry (arranged.perm.mem_iff.mp member)

theorem arranged_of_run {state last : State} {tokens : List Token} {emitted : List Item}
    (ran : state.run tokens = .ok (emitted, last)) {previous : Option Lexeme}
    (reads : state.expectsOperand = !previous.any Lexeme.endsOperand) {place : Nat}
    {waiting : List Placed} (listed : waiting.map Placed.item = Pending.items state.pending)
    (operations : ∀ entry ∈ waiting, entry.number? = none)
    (earlier : ∀ entry ∈ waiting, entry.place < place) :
    ∃ order left, order.map Placed.item = emitted ∧
      left.map Placed.item = Pending.items last.pending ∧
      Arranged place waiting (placed previous place tokens) order left := by
  induction tokens generalizing state emitted previous place waiting with
  | nil =>
    cases ran
    refine ⟨[], waiting, rfl, listed, ?_⟩
    exact {
      perm := by
        rw [placed, List.append_nil]
        exact .refl _
      inTurn := .nil
      numbers := rfl
      arrived := fun _ member => by cases member
      operations := operations }
  | cons token tokens inductionHypothesis =>
    obtain ⟨front, next, rest, stepped, continued, rfl⟩ := State.run_cons_inv ran
    obtain ⟨order, middle, emits, holds, first⟩ :=
      arranged_of_step stepped reads place listed operations
    have bounded : ∀ entry ∈ waiting ++ ((token.lexeme.item? previous).map (Placed.mk place)).toList,
        entry.place < place + 1 := by
      intro entry member
      obtain waited | own := List.mem_append.mp member
      · exact Nat.lt_succ_of_lt (earlier entry waited)
      · rw [Option.mem_toList, Option.map_eq_some_iff] at own
        obtain ⟨item, -, rfl⟩ := own
        exact Nat.lt_succ_self place
    have within := first.place_lt bounded
    have nextReads : next.expectsOperand = !(some token.lexeme).any Lexeme.endsOperand :=
      State.expectsOperand_of_step stepped
    obtain ⟨later, left, laterEmits, leaves, second⟩ :=
      inductionHypothesis continued nextReads holds first.operations
        fun entry member => within entry (List.mem_append_right _ member)
    refine ⟨order ++ later, left, ?_, leaves, ?_⟩
    · rw [List.map_append, emits, laterEmits]
    · exact first.append second (Nat.le_succ place)
        fun entry member => within entry (List.mem_append_left _ member)

theorem arranged_of_initial {last : State} {tokens : List Token} {emitted : List Item}
    (ran : State.initial.run tokens = .ok (emitted, last)) :
    ∃ order left, order.map Placed.item = emitted ∧
      left.map Placed.item = Pending.items last.pending ∧
      Arranged 0 [] (placed none 0 tokens) order left :=
  arranged_of_run ran rfl rfl (fun _ member => by cases member) fun _ member => by cases member

theorem filterMap_item (entries : List Placed) :
    (entries.map Placed.item).filterMap Item.number? = entries.filterMap Placed.number? :=
  List.filterMap_map

/-- The numbers of tokens are put out as they are read. -/
theorem numbers_of_run {last : State} {tokens : List Token} {emitted : List Item}
    (ran : State.initial.run tokens = .ok (emitted, last)) :
    emitted.filterMap Item.number? = tokens.filterMap fun token => token.lexeme.number? := by
  obtain ⟨order, left, rfl, -, arranged⟩ := arranged_of_initial ran
  rw [filterMap_item, arranged.numbers, numbers_placed]

theorem gain_add_binaries (items : List Item) :
    gain items + (items.countP Item.isBinary : Int) = (items.filterMap Item.number?).length := by
  induction items with
  | nil => rfl
  | cons item items inductionHypothesis =>
    rw [gain_cons, List.countP_cons, List.filterMap_cons]
    cases item with
    | number value | operator op | function f | negation =>
      simp [Item.gain, Item.isBinary, Item.number?]
      omega

theorem exists_order {tokens : List Token} {items : List Item}
    (ordered : ofTokens tokens = .ok items) :
    ∃ order : List Placed, order.map Placed.item = items ∧ order.Perm (placed none 0 tokens) ∧
      order.Pairwise Placed.InTurn ∧
      order.filterMap Placed.number? = (placed none 0 tokens).filterMap Placed.number? := by
  obtain ⟨emitted, waiting, expects, ran, rfl⟩ := State.run_of_items ordered
  obtain ⟨order, left, emits, leaves, arranged⟩ := arranged_of_initial ran
  have waits : Pending.items (Pending.block waiting) = waiting := State.filterMap_block waiting
  have unnumbered : ∀ earlier : Placed, ∀ later ∈ left, Placed.InTurn earlier later := by
    intro earlier later member isNumber
    rw [arranged.operations later member] at isNumber
    cases isNumber
  refine ⟨order ++ left, ?_, arranged.perm, ?_, ?_⟩
  · rw [List.map_append, emits, leaves, waits]
  · refine List.pairwise_append.mpr ⟨arranged.inTurn, ?_, fun earlier _ => unnumbered earlier⟩
    exact List.pairwise_of_forall_mem_list fun earlier _ => unnumbered earlier
  · rw [List.filterMap_append, arranged.numbers, List.filterMap_eq_nil_iff.mpr arranged.operations,
      List.append_nil]

/-- The postfix order of tokens is a rearrangement of their items, one for every token that is no
    parenthesis. Numbers keep their order, and nothing is put out in front of a number that stands to
    its left. So an expression can have a value only if it has one number more than binary
    operators. -/
theorem items_rearranged (tokens : List Token) :
    (∀ items, ofTokens tokens = .ok items →
      (∃ order : List Placed, order.map Placed.item = items ∧ order.Perm (placed none 0 tokens) ∧
        order.Pairwise Placed.InTurn) ∧
      items.length = tokens.countP (fun token => !token.lexeme.isParenthesis) ∧
      items.filterMap Item.number? = tokens.filterMap fun token => token.lexeme.number?) ∧
    (∀ value, Evaluation.ofTokens tokens = .ok value →
      (tokens.filterMap fun token => token.lexeme.number?).length =
        (placed none 0 tokens).countP (fun entry => entry.item.isBinary) + 1) := by
  constructor
  · intro items ordered
    obtain ⟨order, rfl, perm, inTurn, numbers⟩ := exists_order ordered
    refine ⟨⟨order, rfl, perm, inTurn⟩, ?_, ?_⟩
    · rw [List.length_map, perm.length_eq,
        length_placed fun name member => State.function_of_items ordered member]
    · rw [filterMap_item, numbers, numbers_placed]
  · intro value valued
    rw [Evaluation.ofTokens] at valued
    obtain ⟨items, ordered, evaluated⟩ := ok_of_bind valued
    obtain ⟨order, rfl, perm, -, numbers⟩ := exists_order ordered
    have single := gain_of_evaluate evaluated
    have counted := gain_add_binaries (order.map Placed.item)
    rw [single, filterMap_item, numbers, numbers_placed, List.countP_map, perm.countP_eq] at counted
    simp only [Function.comp_def] at counted
    omega

/-- The tokens of `2(7-4)*-`, in which the first minus is a subtraction and the last one a negation. -/
def trailingSign : List Token :=
  [⟨.number 2, ⟨0, 1⟩⟩, ⟨.leftParen, ⟨1, 2⟩⟩, ⟨.number 7, ⟨2, 3⟩⟩,
    ⟨.operator .subtract, ⟨3, 4⟩⟩, ⟨.number 4, ⟨4, 5⟩⟩, ⟨.rightParen, ⟨5, 6⟩⟩,
    ⟨.operator .multiply, ⟨6, 7⟩⟩, ⟨.operator .subtract, ⟨7, 8⟩⟩]

theorem items_of_trailingSign :
    let items : List Item := [.number 2, .number 7, .number 4, .operator .subtract, .negation,
      .operator .multiply]
    ofTokens trailingSign = .ok items ∧
      placed none 0 trailingSign = [⟨0, .number 2⟩, ⟨2, .number 7⟩, ⟨3, .operator .subtract⟩,
        ⟨4, .number 4⟩, ⟨6, .operator .multiply⟩, ⟨7, .negation⟩] ∧
      (∃ order : List Placed, order.map Placed.item = items ∧
        order.Perm (placed none 0 trailingSign) ∧ order.Pairwise Placed.InTurn) ∧
      Evaluation.ofTokens trailingSign = .ok (2 * -(7 - 4)) ∧
      (trailingSign.filterMap fun token => token.lexeme.number?).length =
        (placed none 0 trailingSign).countP (fun entry => entry.item.isBinary) + 1 := by
  intro items
  have ordered : ofTokens trailingSign = .ok items := rfl
  have valued : Evaluation.ofTokens trailingSign = .ok (2 * -(7 - 4)) := rfl
  obtain ⟨rearranged, counted⟩ := items_rearranged trailingSign
  exact ⟨ordered, rfl, (rearranged items ordered).1, valued, counted _ valued⟩

end Postfix

end Keypad
