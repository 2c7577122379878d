import Keypad.Expression.Chain
import Keypad.Proofs.Postfix.Run

/-!
# Postfix order of chains

Reading a chain of operators of any precedences and associativities puts its tree into postorder.
The root of the chain releases all that is waiting of the part in front of it
(`Rank.IsRoot.claims_before`), and no operator behind it releases the root
(`Rank.IsRoot.not_claims_after`), so both parts are read as chains of their own.
-/

namespace Keypad

/-! ## Roots -/

namespace Rank.IsRoot

theorem claims_before {before after : List Rank} {root op : Operator}
    (isRoot : IsRoot before root.rank after) (member : op.rank ∈ before) :
    op.claimsFrom root = true := by
  have looser : root.precedence ≤ op.precedence :=
    isRoot.loosest op.rank (List.mem_append_left _ member)
  rw [Operator.claimsFrom, Bool.or_eq_true, decide_eq_true_eq, Bool.and_eq_true, beq_iff_eq,
    beq_iff_eq]
  obtain tighter | tie := Nat.lt_or_eq_of_le looser
  · exact .inl tighter
  · obtain ⟨left, -⟩ | ⟨-, first⟩ := isRoot.chosen
    · exact .inr ⟨tie.symm, left⟩
    · exact absurd tie.symm (first op.rank member)

theorem not_claims_after {before after : List Rank} {root op : Operator}
    (isRoot : IsRoot before root.rank after) (member : op.rank ∈ after) :
    root.claimsFrom op = false := by
  have looser : root.precedence ≤ op.precedence :=
    isRoot.loosest op.rank (List.mem_append_right _ member)
  have right : op.precedence = root.precedence → op.associativity = .right := by
    obtain ⟨-, last⟩ | ⟨right, -⟩ := isRoot.chosen
    · exact last op.rank member
    · exact right op.rank (List.mem_append_right _ (List.mem_cons_of_mem _ member))
  rw [Operator.claimsFrom, Bool.or_eq_false_iff, decide_eq_false_iff_not]
  refine ⟨Nat.not_lt.mpr looser, ?_⟩
  by_cases same : root.precedence = op.precedence
  · rw [right same.symm]
    exact Bool.and_false _
  · rw [beq_eq_false_iff_ne.mpr same, Bool.false_and]

/-- All operators that bind as loosely as a root from the right group from the right. -/
theorem right_of_tie {before after : List Rank} {root other : Rank}
    (isRoot : IsRoot before root after) (right : root.associativity = .right)
    (member : other ∈ before ++ root :: after) (tie : other.precedence = root.precedence) :
    other.associativity = .right := by
  obtain ⟨left, -⟩ | ⟨all, -⟩ := isRoot.chosen
  · rw [right] at left
    cases left
  · exact all other member tie

theorem le_of_mem {before after : List Rank} {root other : Rank} (isRoot : IsRoot before root after)
    (member : other ∈ before ++ root :: after) : root.precedence ≤ other.precedence := by
  obtain front | behind := List.mem_append.mp member
  · exact isRoot.loosest other (List.mem_append_left _ front)
  · obtain rfl | after := List.mem_cons.mp behind
    · exact Nat.le_refl _
    · exact isRoot.loosest other (List.mem_append_right _ after)

/-- An operator is the root if it binds most loosely and all that bind as loosely group from the
    right. -/
theorem of_front {first : Rank} {later : List Rank}
    (loosest : ∀ other ∈ later, first.precedence ≤ other.precedence)
    (right : ∀ other ∈ later, other.precedence = first.precedence → other.associativity = .right) :
    IsRoot [] first later where
  loosest := loosest
  chosen := by
    cases grouped : first.associativity with
    | left => exact .inl ⟨rfl, right⟩
    | right =>
      refine .inr ⟨fun other member tie => ?_, fun other member => by cases member⟩
      obtain rfl | behind := List.mem_cons.mp member
      · exact grouped
      · exact right other behind tie

theorem cons {before after : List Rank} {root first : Rank} (isRoot : IsRoot before root after)
    (looser : root.precedence ≤ first.precedence)
    (chosen : first.precedence = root.precedence → root.associativity = .left) :
    IsRoot (first :: before) root after where
  loosest other member := by
    obtain rfl | behind := List.mem_cons.mp member
    · exact looser
    · exact isRoot.loosest other behind
  chosen := by
    cases grouped : root.associativity with
    | left =>
      obtain ⟨-, last⟩ | ⟨all, -⟩ := isRoot.chosen
      · exact .inl ⟨rfl, last⟩
      · have right := all root (List.mem_append_right _ List.mem_cons_self) rfl
        rw [grouped] at right
        cases right
    | right =>
      have apart : first.precedence ≠ root.precedence := by
        intro tie
        rw [chosen tie] at grouped
        cases grouped
      refine .inr ⟨fun other member tie => ?_, fun other member => ?_⟩
      · obtain rfl | behind := List.mem_cons.mp member
        · exact absurd tie apart
        · exact isRoot.right_of_tie grouped behind tie
      · obtain rfl | behind := List.mem_cons.mp member
        · exact apart
        · obtain ⟨left, -⟩ | ⟨-, firstRight⟩ := isRoot.chosen
          · rw [grouped] at left
            cases left
          · exact firstRight other behind

end Rank.IsRoot

theorem Rank.exists_isRoot {ranks : List Rank} (nonempty : ranks ≠ []) :
    ∃ before root after, ranks = before ++ root :: after ∧ IsRoot before root after := by
  induction ranks with
  | nil => exact absurd rfl nonempty
  | cons first later inductionHypothesis =>
    by_cases last : later = []
    · rw [last]
      exact ⟨[], first, [], rfl, .of_front (fun _ member => by cases member)
        fun _ member => by cases member⟩
    · obtain ⟨before, root, after, rfl, isRoot⟩ := inductionHypothesis last
      by_cases looser : first.precedence < root.precedence
      · refine ⟨[], first, _, rfl, .of_front (fun other member => ?_) fun other member tie => ?_⟩
        · have tighter := isRoot.le_of_mem member
          omega
        · have tighter := isRoot.le_of_mem member
          omega
      · by_cases taken : first.precedence = root.precedence ∧ root.associativity = .right
        · obtain ⟨tie, right⟩ := taken
          refine ⟨[], first, _, rfl, .of_front (fun other member => ?_) fun other member same => ?_⟩
          · rw [tie]
            exact isRoot.le_of_mem member
          · exact isRoot.right_of_tie right member (same.trans tie)
        · refine ⟨first :: before, root, after, rfl,
            isRoot.cons (Nat.not_lt.mp looser) fun tie => ?_⟩
          cases grouped : root.associativity with
          | left => rfl
          | right => exact absurd ⟨tie, grouped⟩ taken

/-! ## Groupings -/

namespace Chain

open Postfix Postfix.State

theorem exists_join {chain : Chain} {before after : List Rank} {root : Rank}
    (divided : chain.ranks = before ++ root :: after) :
    ∃ (left : Chain) (op : Operator) (right : Chain), chain = left.join op right ∧
      left.ranks = before ∧ op.rank = root ∧ right.ranks = after := by
  rw [ranks, operators, List.map_map] at divided
  obtain ⟨front, behind, whole, fronts, behinds⟩ := List.map_eq_append_iff.mp divided
  obtain ⟨⟨op, value⟩, rest, rfl, ranked, rests⟩ := List.map_eq_cons_iff.mp behinds
  refine ⟨⟨chain.first, front⟩, op, ⟨value, rest⟩, ?_, ?_, ranked, ?_⟩
  · rw [join, ← whole]
  · rw [ranks, operators, List.map_map, fronts]
  · rw [ranks, operators, List.map_map, rests]

theorem exists_groups (chain : Chain) : ∃ tree, chain.Groups tree := by
  generalize count : chain.ranks.length = size
  induction size using Nat.strongRecOn generalizing chain with
  | ind size inductionHypothesis =>
    by_cases single : chain.ranks = []
    · obtain ⟨value, rest⟩ := chain
      rw [ranks, operators, List.map_eq_nil_iff, List.map_eq_nil_iff] at single
      cases single
      exact ⟨.number value, .number value⟩
    · obtain ⟨before, root, after, divided, isRoot⟩ := Rank.exists_isRoot single
      obtain ⟨left, op, right, rfl, rfl, rfl, rfl⟩ := exists_join divided
      rw [ranks_join, List.length_append, List.length_cons] at count
      obtain ⟨first, leftGroups⟩ := inductionHypothesis left.ranks.length (by omega) left rfl
      obtain ⟨second, rightGroups⟩ := inductionHypothesis right.ranks.length (by omega) right rfl
      exact ⟨.binary op first second, .root isRoot leftGroups rightGroups⟩

/-- What reading a chain does to the machine. What is pending below stays, and only operators of the
    chain are left waiting. -/
theorem run_of_groups {chain : Chain} {tree : Expression} (groups : chain.Groups tree)
    {tokens : List Token} (spelled : tokens.map Token.lexeme = chain.lexemes) {below : List Pending}
    (unclaimed : ∀ op, op ∈ chain.operators →
      ∀ top ∈ below.head?, Pending.claimsBefore op top = false)
    (expects : Bool) :
    ∃ emitted waiting,
      run ⟨below, expects⟩ tokens = .ok (emitted, ⟨Pending.block waiting ++ below, false⟩) ∧
      emitted ++ waiting = tree.postorder ∧
      ∀ item ∈ waiting, ∃ op ∈ chain.operators, item = .operator op := by
  induction groups generalizing tokens below expects with
  | number value =>
    obtain ⟨token, rfl, lexeme⟩ := List.map_eq_singleton_iff.mp spelled
    refine ⟨[.number value], [], ?_, rfl, fun item member => by cases member⟩
    simp only [run, step, lexeme]
    rfl
  | @root left right op first second isRoot leftGroups rightGroups leftRuns rightRuns =>
    rw [lexemes_join] at spelled
    rw [operators_join] at unclaimed ⊢
    obtain ⟨front, behind, rfl, fronts, behinds⟩ := List.map_eq_append_iff.mp spelled
    obtain ⟨token, back, rfl, infixed, backs⟩ := List.map_eq_cons_iff.mp behinds
    obtain ⟨leftEmitted, leftWaiting, leftRan, leftListed, leftOperators⟩ :=
      leftRuns fronts (fun other member => unclaimed other (List.mem_append_left _ member)) expects
    have claimed : ∀ item ∈ leftWaiting, Pending.claimsBefore op (.item item) = true := by
      intro item member
      obtain ⟨other, among, rfl⟩ := leftOperators item member
      exact isRoot.claims_before (List.mem_map_of_mem among)
    have stepped : step ⟨Pending.block leftWaiting ++ below, false⟩ token =
        .ok (leftWaiting, ⟨.item (.operator op) :: below, true⟩) := by
      simp only [step, infixed, release_block claimed
        (unclaimed op (List.mem_append_right _ List.mem_cons_self))]
      rfl
    have unreleased : ∀ other, other ∈ right.operators →
        ∀ top ∈ (Pending.item (.operator op) :: below).head?,
          Pending.claimsBefore other top = false := by
      intro other member top isTop
      cases isTop
      exact isRoot.not_claims_after (List.mem_map_of_mem member)
    obtain ⟨emitted, waiting, rightRan, rightListed, rightOperators⟩ :=
      rightRuns backs unreleased true
    refine ⟨leftEmitted ++ (leftWaiting ++ emitted), waiting ++ [.operator op], ?_, ?_, ?_⟩
    · rw [run_append_ok leftRan (run_cons_ok stepped rightRan)]
      simp
    · rw [Expression.postorder, ← leftListed, ← rightListed]
      simp
    · intro item member
      obtain inside | last := List.mem_append.mp member
      · obtain ⟨other, among, same⟩ := rightOperators item inside
        exact ⟨other, List.mem_append_right _ (List.mem_cons_of_mem _ among), same⟩
      · exact ⟨op, List.mem_append_right _ List.mem_cons_self, List.mem_singleton.mp last⟩

theorem ofTokens_of_groups {chain : Chain} {tree : Expression} (groups : chain.Groups tree)
    {tokens : List Token} (spelled : tokens.map Token.lexeme = chain.lexemes) :
    Postfix.ofTokens tokens = .ok tree.postorder := by
  have unclaimed : ∀ op, op ∈ chain.operators →
      ∀ top ∈ ([] : List Pending).head?, Pending.claimsBefore op top = false :=
    fun _ _ top isTop => by cases isTop
  obtain ⟨emitted, waiting, ran, listed, -⟩ := run_of_groups groups spelled unclaimed true
  rw [List.append_nil] at ran
  rw [Postfix.ofTokens, State.initial, items_eq_run, ran, ← listed]
  change (finish ⟨Pending.block waiting, false⟩ >>= fun rest => .ok (emitted ++ rest)) = _
  rw [finish_block]
  rfl

theorem exists_tokens (chain : Chain) :
    ∃ tokens : List Token, tokens.map Token.lexeme = chain.lexemes := by
  refine ⟨chain.lexemes.map fun lexeme => ⟨lexeme, ⟨0, 0⟩⟩, ?_⟩
  rw [List.map_map]
  exact List.map_id _

theorem groups_unique {chain : Chain} {tree other : Expression} (groups : chain.Groups tree)
    (otherGroups : chain.Groups other) : tree = other := by
  obtain ⟨tokens, spelled⟩ := chain.exists_tokens
  have same := (ofTokens_of_groups groups spelled).symm.trans (ofTokens_of_groups otherGroups spelled)
  exact Expression.postorder_injective (Except.ok.inj same)

theorem exists_sameShape {chain other : Chain} {tree : Expression} (groups : chain.Groups tree)
    (ranked : other.ranks = chain.ranks) :
    ∃ otherTree, other.Groups otherTree ∧ tree.SameShape otherTree := by
  induction groups generalizing other with
  | number value =>
    obtain ⟨otherValue, rest⟩ := other
    rw [ranks, operators, List.map_map] at ranked
    cases List.map_eq_nil_iff.mp ranked
    exact ⟨.number otherValue, .number otherValue, .number value otherValue⟩
  | root isRoot leftGroups rightGroups leftShapes rightShapes =>
    rw [ranks_join] at ranked
    obtain ⟨left, op, right, rfl, leftRanked, opRanked, rightRanked⟩ := exists_join ranked
    obtain ⟨first, firstGroups, firstShape⟩ := leftShapes leftRanked
    obtain ⟨second, secondGroups, secondShape⟩ := rightShapes rightRanked
    refine ⟨.binary op first second, .root ?_ firstGroups secondGroups,
      .binary _ op firstShape secondShape⟩
    rw [leftRanked, opRanked, rightRanked]
    exact isRoot

/-- A chain has one tree, and its postfix order is the postorder of this tree. Chains whose operators
    have the same ranks are grouped alike, whatever their operators are. -/
theorem ofTokens_eq_postorder (chain : Chain) :
    ∃ tree, chain.Groups tree ∧ (∀ other, chain.Groups other → other = tree) ∧
      (∀ tokens : List Token, tokens.map Token.lexeme = chain.lexemes →
        Postfix.ofTokens tokens = .ok tree.postorder) ∧
      ∀ other : Chain, other.ranks = chain.ranks →
        ∃ otherTree, other.Groups otherTree ∧ tree.SameShape otherTree ∧
          ∀ tokens : List Token, tokens.map Token.lexeme = other.lexemes →
            Postfix.ofTokens tokens = .ok otherTree.postorder := by
  obtain ⟨tree, groups⟩ := chain.exists_groups
  refine ⟨tree, groups, fun other otherGroups => groups_unique otherGroups groups,
    fun tokens => ofTokens_of_groups groups, fun other ranked => ?_⟩
  obtain ⟨otherTree, otherGroups, shape⟩ := exists_sameShape groups ranked
  exact ⟨otherTree, otherGroups, shape, fun tokens => ofTokens_of_groups otherGroups⟩

/-- At the loosest level one operator groups from the left and two from the right. In the other chain
    a sign stands for another operation at every place. -/
theorem ofTokens_eq_postorder_of_mixedLevel :
    let chain : Chain := ⟨1, [(⟨'~', .add, .right, 2⟩, 2), (⟨'-', .subtract, .left, 2⟩, 3),
      (⟨'^', .power, .right, 4⟩, 4), (⟨'@', .divide, .right, 2⟩, 5)]⟩
    let other : Chain := ⟨6, [(⟨'-', .subtract, .right, 2⟩, 7), (⟨'^', .power, .left, 2⟩, 8),
      (⟨'~', .add, .right, 4⟩, 9), (⟨'-', .subtract, .right, 2⟩, 10)]⟩
    let tokens := chain.lexemes.map fun lexeme => (⟨lexeme, ⟨0, 0⟩⟩ : Token)
    tokens.map Token.lexeme = chain.lexemes ∧ other.ranks = chain.ranks ∧
      ∃ tree otherTree, chain.Groups tree ∧ Postfix.ofTokens tokens = .ok tree.postorder ∧
        tree.postorder = [.number 1, .number 2, .operator ⟨'~', .add, .right, 2⟩, .number 3,
          .number 4, .operator ⟨'^', .power, .right, 4⟩, .number 5,
          .operator ⟨'@', .divide, .right, 2⟩, .operator ⟨'-', .subtract, .left, 2⟩] ∧
        other.Groups otherTree ∧ tree.SameShape otherTree := by
  intro chain other tokens
  have ranked : other.ranks = chain.ranks := by decide
  obtain ⟨tree, groups, -, read, alike⟩ := ofTokens_eq_postorder chain
  obtain ⟨otherTree, otherGroups, shape, -⟩ := alike other ranked
  have ordered := read tokens rfl
  have computed : Postfix.ofTokens tokens =
      .ok [.number 1, .number 2, .operator ⟨'~', .add, .right, 2⟩, .number 3, .number 4,
        .operator ⟨'^', .power, .right, 4⟩, .number 5, .operator ⟨'@', .divide, .right, 2⟩,
        .operator ⟨'-', .subtract, .left, 2⟩] := rfl
  exact ⟨rfl, ranked, tree, otherTree, groups, ordered,
    Except.ok.inj (ordered.symm.trans computed), otherGroups, shape⟩

end Chain

end Keypad
