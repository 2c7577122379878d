import Keypad.Proofs.Postfix.Groups
import Keypad.Proofs.Token.Spans

/-!
# Nesting

Counting parentheses from the left tells what is wrong with tokens. The first one that names no
function, or closes a group where none is open, is the failure. Without such a token it is the last
parenthesis that stays open, and if there is none the tokens are put into postfix order
(`fault_decides`).
-/

namespace Keypad

/-- By how many groups a lexeme deepens the nesting. -/
def Lexeme.nesting : Lexeme → Int
  | leftParen => 1
  | rightParen => -1
  | _ => 0

theorem Lexeme.eq_leftParen_of_nesting {lexeme : Lexeme} (deepens : 0 < lexeme.nesting) :
    lexeme = .leftParen := by
  cases lexeme with
  | leftParen => rfl
  | rightParen | number value | operator op | word name => cases deepens

namespace Postfix

/-- How many more groups tokens open than they close. -/
def depth : List Token → Int
  | [] => 0
  | token :: later => token.lexeme.nesting + depth later

@[simp] theorem depth_nil : depth [] = 0 := rfl

@[simp] theorem depth_cons (token : Token) (later : List Token) :
    depth (token :: later) = token.lexeme.nesting + depth later := rfl

@[simp] theorem depth_append (tokens later : List Token) :
    depth (tokens ++ later) = depth tokens + depth later := by
  induction tokens with
  | nil => simp
  | cons token tokens inductionHypothesis => simp [inductionHypothesis, Int.add_assoc]

/-! ## Tokens that offend -/

/-- A token offends behind others if it is a word that names no function, or closes a group where
    none is open. -/
inductive Offends (before : List Token) (token : Token) : Failure → Prop where
  | unknown {name : String} (worded : token.lexeme = .word name)
      (unnamed : ∀ f : UnaryFunction, f.name ≠ name) :
      Offends before token (.unknownFunction name)
  | unmatched (closes : token.lexeme = .rightParen) (outside : depth before = 0) :
      Offends before token (.unmatchedRightParen token.span.start)

/-- No token offends behind those in front of it. -/
def Orderly (tokens : List Token) : Prop :=
  ∀ before token after failure, tokens = before ++ token :: after → ¬ Offends before token failure

theorem nest_cases {groups next : List Nat} {token : Token} (ran : nest groups token = .ok next) :
    (token.lexeme.nesting = 0 ∧ next = groups) ∨
    (token.lexeme = .leftParen ∧ next = token.span.start :: groups) ∨
    (token.lexeme = .rightParen ∧ ∃ position, groups = position :: next) := by
  obtain ⟨lexeme, span⟩ := token
  cases lexeme with
  | number value | operator op =>
    cases ran
    exact .inl ⟨rfl, rfl⟩
  | leftParen =>
    cases ran
    exact .inr (.inl ⟨rfl, rfl⟩)
  | word name =>
    simp only [nest] at ran
    split at ran
    · cases ran
      exact .inl ⟨rfl, rfl⟩
    · cases ran
  | rightParen =>
    cases groups with
    | nil => cases ran
    | cons position outer =>
      cases ran
      exact .inr (.inr ⟨rfl, position, rfl⟩)

theorem length_nest {groups next : List Nat} {token : Token} (ran : nest groups token = .ok next) :
    (next.length : Int) = groups.length + token.lexeme.nesting := by
  obtain ⟨level, rfl⟩ | ⟨opens, rfl⟩ | ⟨closes, position, rfl⟩ := nest_cases ran
  · rw [level, Int.add_zero]
  · rw [opens]
    rfl
  · rw [closes, Lexeme.nesting, List.length_cons]
    omega

theorem length_foldlM_nest {groups result : List Nat} {tokens : List Token}
    (ran : tokens.foldlM nest groups = .ok result) :
    (result.length : Int) = groups.length + depth tokens := by
  induction tokens generalizing groups with
  | nil =>
    cases ran
    simp
  | cons token tokens inductionHypothesis =>
    rw [List.foldlM_cons] at ran
    obtain ⟨next, stepped, continued⟩ := ok_of_bind ran
    rw [inductionHypothesis continued, length_nest stepped, depth_cons, Int.add_assoc]

theorem nest_eq_error_iff {before : List Token} {groups : List Nat}
    (reached : before.foldlM nest [] = .ok groups) {token : Token} {failure : Failure} :
    nest groups token = .error failure ↔ Offends before token failure := by
  have level := length_foldlM_nest reached
  rw [List.length_nil, Int.natCast_zero, Int.zero_add] at level
  obtain ⟨lexeme, span⟩ := token
  constructor
  · intro failed
    cases lexeme with
    | number value | operator op | leftParen => cases failed
    | word name =>
      simp only [nest] at failed
      split at failed
      next => cases failed
      next unknown =>
        cases failed
        refine .unknown rfl ?_
        rintro f rfl
        rw [UnaryFunction.ofName?_name] at unknown
        cases unknown
    | rightParen =>
      cases groups with
      | nil =>
        cases failed
        exact .unmatched rfl level.symm
      | cons position outer => cases failed
  · rintro (⟨worded, unnamed⟩ | ⟨closes, outside⟩)
    · cases worded
      simp only [nest]
      split
      next f named => exact absurd (UnaryFunction.ofName?_eq_some_iff.mp named).symm (unnamed f)
      next => rfl
    · cases closes
      rw [outside] at level
      cases List.eq_nil_of_length_eq_zero (Int.natCast_eq_zero.mp level)
      rfl

theorem orderly_iff {tokens : List Token} :
    Orderly tokens ↔ ∃ groups, tokens.foldlM nest [] = .ok groups := by
  constructor
  · intro orderly
    cases ran : tokens.foldlM nest [] with
    | ok groups => exact ⟨groups, rfl⟩
    | error failure =>
      obtain ⟨before, token, after, groups, same, reached, fails⟩ := foldlM_eq_error_iff.mp ran
      exact absurd ((nest_eq_error_iff reached).mp fails) (orderly _ _ _ _ same)
  · rintro ⟨groups, ran⟩ before token after failure rfl offends
    rw [List.foldlM_append] at ran
    obtain ⟨reached, front, continued⟩ := ok_of_bind ran
    rw [List.foldlM_cons, (nest_eq_error_iff front).mpr offends] at continued
    cases continued

theorem foldlM_nest_eq_error_iff {tokens : List Token} {failure : Failure} :
    tokens.foldlM nest [] = .error failure ↔
      ∃ before token after, tokens = before ++ token :: after ∧ Orderly before ∧
        Offends before token failure := by
  rw [foldlM_eq_error_iff]
  constructor
  · rintro ⟨before, token, after, groups, same, reached, fails⟩
    exact ⟨before, token, after, same, orderly_iff.mpr ⟨groups, reached⟩,
      (nest_eq_error_iff reached).mp fails⟩
  · rintro ⟨before, token, after, same, orderly, offends⟩
    obtain ⟨groups, reached⟩ := orderly_iff.mp orderly
    exact ⟨before, token, after, groups, same, reached, (nest_eq_error_iff reached).mpr offends⟩

/-! ## Groups that stay open -/

/-- A group in front of tokens is not closed by them, as they nowhere close more groups than they
    open. -/
def StaysOpen (after : List Token) : Prop :=
  ∀ front back, after = front ++ back → 0 ≤ depth front

/-- The last opening parenthesis that is not closed by what is behind it. -/
structure IsLastOpen (opening : Token) (after : List Token) : Prop where
  opens : opening.lexeme = .leftParen
  unclosed : StaysOpen after
  last : ∀ front other back, after = front ++ other :: back → other.lexeme = .leftParen →
    ¬ StaysOpen back

theorem exists_innermost {tokens : List Token} (deeper : 0 < depth tokens) :
    ∃ before opening after, tokens = before ++ opening :: after ∧ opening.lexeme = .leftParen ∧
      StaysOpen after ∧ depth after = 0 := by
  -- A part at the end that is deeper than its beginning is looked at first.
  generalize size : tokens.length = bound
  induction bound using Nat.strongRecOn generalizing tokens with
  | ind bound inductionHypothesis =>
    have behind : ∀ front back, tokens = front ++ back → front ≠ [] → 0 < depth back →
        ∃ before opening after, tokens = before ++ opening :: after ∧
          opening.lexeme = .leftParen ∧ StaysOpen after ∧ depth after = 0 := by
      rintro front back rfl nonempty deep
      have shorter : back.length < bound := by
        have positive := List.length_pos_iff.mpr nonempty
        rw [List.length_append] at size
        omega
      obtain ⟨before, opening, after, rfl, opens, unclosed, level⟩ :=
        inductionHypothesis back.length shorter deep rfl
      exact ⟨front ++ before, opening, after, by simp, opens, unclosed, level⟩
    cases tokens with
    | nil => cases deeper
    | cons token later =>
      by_cases deep : 0 < depth later
      · exact behind [token] later rfl (List.cons_ne_nil _ _) deep
      · rw [depth_cons] at deeper
        have deepens : 0 < token.lexeme.nesting := by omega
        have opens := Lexeme.eq_leftParen_of_nesting deepens
        rw [opens, Lexeme.nesting] at deeper
        by_cases closed : ∃ front back, later = front ++ back ∧ depth front < 0
        · obtain ⟨front, back, rfl, below⟩ := closed
          rw [depth_append] at deeper
          exact behind (token :: front) back rfl (List.cons_ne_nil _ _) (by omega)
        · have unclosed : StaysOpen later := by
            intro front back same
            exact Int.not_lt.mp fun below => closed ⟨front, back, same, below⟩
          exact ⟨[], token, later, rfl, opens, unclosed, by omega⟩

theorem IsLastOpen.depth_eq_zero {opening : Token} {after : List Token}
    (isLast : IsLastOpen opening after) : depth after = 0 := by
  have level := isLast.unclosed after [] (List.append_nil after).symm
  by_cases deeper : 0 < depth after
  · obtain ⟨front, other, back, same, opens, unclosed, -⟩ := exists_innermost deeper
    exact absurd unclosed (isLast.last front other back same opens)
  · omega

theorem isLastOpen_of_depth {opening : Token} {after : List Token}
    (opens : opening.lexeme = .leftParen) (unclosed : StaysOpen after) (level : depth after = 0) :
    IsLastOpen opening after where
  opens := opens
  unclosed := unclosed
  last := by
    rintro front other back rfl otherOpens otherUnclosed
    have outside := unclosed front _ rfl
    have inside := otherUnclosed back [] (List.append_nil back).symm
    rw [depth_append, depth_cons, otherOpens, Lexeme.nesting] at level
    omega

theorem exists_isLastOpen {tokens : List Token} (deeper : 0 < depth tokens) :
    ∃ before opening after, tokens = before ++ opening :: after ∧ IsLastOpen opening after := by
  obtain ⟨before, opening, after, same, opens, unclosed, level⟩ := exists_innermost deeper
  exact ⟨before, opening, after, same, isLastOpen_of_depth opens unclosed level⟩

theorem nest_frame {inner outer next : List Nat} {token : Token}
    (ran : nest (inner ++ outer) token = .ok next)
    (above : 0 ≤ inner.length + token.lexeme.nesting) : ∃ left, next = left ++ outer := by
  obtain ⟨-, rfl⟩ | ⟨-, rfl⟩ | ⟨closes, position, same⟩ := nest_cases ran
  · exact ⟨inner, rfl⟩
  · exact ⟨token.span.start :: inner, rfl⟩
  · cases inner with
    | nil =>
      rw [closes] at above
      cases above
    | cons first inner =>
      cases same
      exact ⟨inner, rfl⟩

/-- Tokens that close no more groups than they find and open on the inside leave the outer ones. -/
theorem foldlM_nest_frame {inner outer result : List Nat} {tokens : List Token}
    (ran : tokens.foldlM nest (inner ++ outer) = .ok result)
    (above : ∀ front back, tokens = front ++ back → 0 ≤ inner.length + depth front) :
    ∃ left, result = left ++ outer := by
  induction tokens generalizing inner with
  | nil =>
    cases ran
    exact ⟨inner, rfl⟩
  | cons token tokens inductionHypothesis =>
    rw [List.foldlM_cons] at ran
    obtain ⟨next, stepped, continued⟩ := ok_of_bind ran
    have first := above [token] tokens rfl
    rw [depth_cons, depth_nil, Int.add_zero] at first
    obtain ⟨left, rfl⟩ := nest_frame stepped first
    refine inductionHypothesis continued ?_
    rintro front back rfl
    have level := length_nest stepped
    have whole := above (token :: front) back rfl
    rw [List.length_append, List.length_append, Int.natCast_add, Int.natCast_add] at level
    rw [depth_cons] at whole
    omega

theorem IsLastOpen.head_of_foldlM {before after : List Token} {opening : Token}
    (isLast : IsLastOpen opening after) {groups : List Nat}
    (ran : (before ++ opening :: after).foldlM nest [] = .ok groups) :
    ∃ outer, groups = opening.span.start :: outer := by
  rw [List.foldlM_append] at ran
  obtain ⟨outer, -, continued⟩ := ok_of_bind ran
  have opened : nest outer opening = .ok (opening.span.start :: outer) := by
    simp only [nest, isLast.opens]
  rw [List.foldlM_cons, opened] at continued
  change after.foldlM nest ([] ++ opening.span.start :: outer) = _ at continued
  have above : ∀ front back, after = front ++ back → 0 ≤ ([] : List Nat).length + depth front := by
    intro front back same
    simpa using isLast.unclosed front back same
  obtain ⟨left, rfl⟩ := foldlM_nest_frame continued above
  have level := length_foldlM_nest continued
  rw [isLast.depth_eq_zero, List.length_append, List.nil_append] at level
  have inside : left = [] := List.eq_nil_of_length_eq_zero (by omega)
  exact ⟨outer, by rw [inside, List.nil_append]⟩

theorem left_open_iff {tokens : List Token} {position : Nat} :
    (∃ outer, tokens.foldlM nest [] = .ok (position :: outer)) ↔
      Orderly tokens ∧ ∃ before opening after, tokens = before ++ opening :: after ∧
        IsLastOpen opening after ∧ position = opening.span.start := by
  constructor
  · rintro ⟨outer, ran⟩
    have level := length_foldlM_nest ran
    rw [List.length_cons, List.length_nil] at level
    have deeper : 0 < depth tokens := by omega
    obtain ⟨before, opening, after, rfl, isLast⟩ := exists_isLastOpen deeper
    obtain ⟨_, same⟩ := isLast.head_of_foldlM ran
    exact ⟨orderly_iff.mpr ⟨_, ran⟩, before, opening, after, rfl, isLast, (List.cons.inj same).1⟩
  · rintro ⟨orderly, before, opening, after, rfl, isLast, rfl⟩
    obtain ⟨groups, ran⟩ := orderly_iff.mp orderly
    obtain ⟨outer, rfl⟩ := isLast.head_of_foldlM ran
    exact ⟨outer, ran⟩

/-! ## The fault -/

/-- What keeps tokens from being put into postfix order: the first one that offends, or without such
    a token the last parenthesis that stays open. -/
inductive Fault : List Token → Failure → Prop where
  | offense {before : List Token} {token : Token} {failure : Failure} (orderly : Orderly before)
      (offends : Offends before token failure) (after : List Token) :
      Fault (before ++ token :: after) failure
  | leftOpen {before after : List Token} {opening : Token}
      (orderly : Orderly (before ++ opening :: after)) (isLast : IsLastOpen opening after) :
      Fault (before ++ opening :: after) (.unclosedLeftParen opening.span.start)

theorem error_iff_fault {tokens : List Token} {failure : Failure} :
    ofTokens tokens = .error failure ↔ Fault tokens failure := by
  rw [ofTokens_eq_error_iff, foldlM_nest_eq_error_iff]
  constructor
  · rintro (⟨before, token, after, rfl, orderly, offends⟩ | ⟨position, outer, ran, rfl⟩)
    · exact .offense orderly offends after
    · obtain ⟨orderly, before, opening, after, rfl, isLast, rfl⟩ := left_open_iff.mp ⟨outer, ran⟩
      exact .leftOpen orderly isLast
  · intro fault
    cases fault with
    | @offense before token failure orderly offends after =>
      exact .inl ⟨before, token, after, rfl, orderly, offends⟩
    | @leftOpen before after opening orderly isLast =>
      obtain ⟨outer, ran⟩ := left_open_iff.mpr ⟨orderly, before, opening, after, rfl, isLast, rfl⟩
      exact .inr ⟨_, outer, ran, rfl⟩

theorem exists_ofTokens_iff_orderly {tokens : List Token} :
    (∃ items, ofTokens tokens = .ok items) ↔ Orderly tokens ∧ depth tokens = 0 := by
  rw [exists_ofTokens_iff]
  constructor
  · intro ran
    have level := length_foldlM_nest ran
    rw [List.length_nil, Int.natCast_zero, Int.zero_add] at level
    exact ⟨orderly_iff.mpr ⟨[], ran⟩, level.symm⟩
  · rintro ⟨orderly, level⟩
    obtain ⟨groups, ran⟩ := orderly_iff.mp orderly
    have size := length_foldlM_nest ran
    rw [level, List.length_nil] at size
    have closed : groups.length = 0 := by omega
    rw [ran, List.eq_nil_of_length_eq_zero closed]

/-- The fault of tokens decides how they fail, and tokens without a fault are put into postfix order.
    These are orderly tokens that close all groups, and one that leaves some open has a last one of
    them. Numbers and operators have no part in this. A parenthesis of a text stands at the start of
    its span. -/
theorem fault_decides (tokens : List Token) :
    (∀ failure, ofTokens tokens = .error failure ↔ Fault tokens failure) ∧
    ((∃ items, ofTokens tokens = .ok items) ↔ Orderly tokens ∧ depth tokens = 0) ∧
    (0 < depth tokens → ∃ before opening after, tokens = before ++ opening :: after ∧
      IsLastOpen opening after) ∧
    (∀ other, skeleton other = skeleton tokens →
      ∀ failure, ofTokens other = .error failure ↔ ofTokens tokens = .error failure) ∧
    (∀ text, Token.scan text = .ok tokens → ∀ front token back, tokens = front ++ token :: back →
      token.lexeme = .leftParen ∨ token.lexeme = .rightParen →
      ∃ before after, text = before ++ token.lexeme.text ++ after ∧ Token.scan before = .ok front ∧
        token.span.start = before.utf8ByteSize) := by
  refine ⟨fun failure => error_iff_fault, exists_ofTokens_iff_orderly, exists_isLastOpen,
    fun other => error_of_skeleton, ?_⟩
  rintro text scanned front token back rfl parenthesis
  refine Token.text_of_scan scanned fun value number => ?_
  rw [number] at parenthesis
  obtain opens | closes := parenthesis
  · cases opens
  · cases closes

/-- The tokens of `(2)-(ln(3`. -/
def unclosedCall : List Token :=
  [⟨.leftParen, ⟨0, 1⟩⟩, ⟨.number 2, ⟨1, 2⟩⟩, ⟨.rightParen, ⟨2, 3⟩⟩, ⟨.operator .subtract, ⟨3, 4⟩⟩,
    ⟨.leftParen, ⟨4, 5⟩⟩, ⟨.word "ln", ⟨5, 7⟩⟩, ⟨.leftParen, ⟨7, 8⟩⟩, ⟨.number 3, ⟨8, 9⟩⟩]

theorem fault_of_unclosedCall :
    Fault unclosedCall (.unclosedLeftParen 7) ∧ 0 < depth unclosedCall ∧
      ofTokens unclosedCall = .error (.unclosedLeftParen 7) ∧
      ofTokens (skeleton unclosedCall) = .error (.unclosedLeftParen 7) ∧
      (∃ before opening after, unclosedCall = before ++ opening :: after ∧
        IsLastOpen opening after) ∧
      Token.scan "(2)-(ln(3" = .ok unclosedCall ∧
      ∃ before after, "(2)-(ln(3" = before ++ "(" ++ after ∧
        Token.scan before = .ok (unclosedCall.take 6) ∧ 7 = before.utf8ByteSize := by
  have unclosed : StaysOpen [⟨.number 3, ⟨8, 9⟩⟩] := by
    intro front back same
    match front with
    | [] => exact Int.le_refl 0
    | [first] =>
      cases same
      exact Int.le_refl 0
    | first :: second :: front => cases same
  have fault : Fault unclosedCall (.unclosedLeftParen 7) :=
    @Fault.leftOpen (unclosedCall.take 6) _ ⟨.leftParen, ⟨7, 8⟩⟩
      (orderly_iff.mpr ⟨[7, 4], rfl⟩) (isLastOpen_of_depth rfl unclosed rfl)
  have scanned : Token.scan "(2)-(ln(3" = .ok unclosedCall := ok_of_toOption (by decide +kernel)
  have deeper : 0 < depth unclosedCall := by decide
  obtain ⟨decided, -, innermost, structural, placed⟩ := fault_decides unclosedCall
  have failed := (decided _).mpr fault
  have same : skeleton (skeleton unclosedCall) = skeleton unclosedCall := by decide +kernel
  exact ⟨fault, deeper, failed, (structural _ same _).mpr failed, innermost deeper, scanned,
    placed _ scanned _ ⟨.leftParen, ⟨7, 8⟩⟩ _ rfl (.inl rfl)⟩

end Postfix

end Keypad
