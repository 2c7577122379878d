import Keypad.Proofs.Evaluation.Position
import Keypad.Proofs.Postfix.Stack
import Keypad.Proofs.Text.Pieces
import Keypad.Proofs.Token.Slices

/-!
# The characters of expressions

A text that has a value consists of numerals, names of functions and signs
(`character_of_value`), and what a failure quotes stands in the text (`mem_of_quoted`). Blanks are
neither written nor left out by making a text canonical, so both hold of blanks in the typed text.
Whatever the text is, the messages of failures repeat numerals and words of it only
(`isOperandChar_of_repeated`).
-/

namespace Keypad

/-! ## Canonical text -/

namespace Canonical

theorem spell_subset_canonicalChars {text : List Char} {c : Char} (member : c ∈ text) :
    ∀ spelled ∈ spell c, spelled ∈ canonicalChars text := by
  intro spelled inside
  rw [canonicalChars_eq_respell]
  induction text with
  | nil => cases member
  | cons first later inductionHypothesis =>
    cases later with
    | nil =>
      cases List.mem_singleton.mp member
      exact inside
    | cons second later =>
      rw [respell_cons_cons]
      obtain rfl | rest := List.mem_cons.mp member
      · exact List.mem_append_left _ (List.mem_append_left _ inside)
      · exact List.mem_append_right _ (inductionHypothesis rest)

theorem exists_of_mem_canonicalChars {text : List Char} {c : Char}
    (member : c ∈ canonicalChars text) : c = '*' ∨ ∃ typed ∈ text, c ∈ spell typed := by
  rw [canonicalChars_eq_respell] at member
  induction text with
  | nil => cases member
  | cons first later inductionHypothesis =>
    cases later with
    | nil => exact .inr ⟨first, List.mem_cons_self, member⟩
    | cons second later =>
      rw [respell_cons_cons, List.mem_append, List.mem_append] at member
      obtain (spelled | star) | rest := member
      · exact .inr ⟨first, List.mem_cons_self, spelled⟩
      · unfold sign at star
        split at star
        · exact .inl (List.mem_singleton.mp star)
        · cases star
      · obtain isStar | ⟨typed, inside, spelled⟩ := inductionHypothesis rest
        · exact .inl isStar
        · exact .inr ⟨typed, List.mem_cons_of_mem _ inside, spelled⟩

/-- The characters that take part in a change of spelling. -/
def respelled : List Char :=
  "÷×−π/*-".toList ++ piNumeral

theorem ne_of_not_respelled {c : Char} (plain : c ∉ respelled) {other : Char}
    (changes : other ∈ respelled) : c ≠ other := by
  rintro rfl
  exact plain changes

theorem spell_of_not_respelled {c : Char} (plain : c ∉ respelled) : spell c = [c] := by
  rw [spell_of_ne (ne_of_not_respelled plain (by decide))]
  obtain ⟨same, -⟩ | ⟨same, -⟩ | ⟨same, -⟩ | same := asciiSymbol_cases c
  · exact absurd same (ne_of_not_respelled plain (by decide))
  · exact absurd same (ne_of_not_respelled plain (by decide))
  · exact absurd same (ne_of_not_respelled plain (by decide))
  · rw [same]

theorem eq_of_mem_spell {c typed : Char} (plain : c ∉ respelled) (member : c ∈ spell typed) :
    c = typed := by
  by_cases isPi : typed = 'π'
  · rw [isPi] at member
    exact absurd (List.mem_append_right _ member) plain
  · rw [spell_of_ne isPi, List.mem_singleton] at member
    obtain ⟨-, same⟩ | ⟨-, same⟩ | ⟨-, same⟩ | same := asciiSymbol_cases typed
    · exact absurd (member.trans same) (ne_of_not_respelled plain (by decide))
    · exact absurd (member.trans same) (ne_of_not_respelled plain (by decide))
    · exact absurd (member.trans same) (ne_of_not_respelled plain (by decide))
    · exact member.trans same

theorem mem_canonicalChars_iff {c : Char} (plain : c ∉ respelled) (text : List Char) :
    c ∈ canonicalChars text ↔ c ∈ text := by
  constructor
  · intro member
    obtain star | ⟨typed, inside, spelled⟩ := exists_of_mem_canonicalChars member
    · exact absurd star (ne_of_not_respelled plain (by decide))
    · rw [eq_of_mem_spell plain spelled]
      exact inside
  · intro member
    apply spell_subset_canonicalChars member
    rw [spell_of_not_respelled plain]
    exact List.mem_singleton_self c

theorem not_respelled_of_isBlank {c : Char} (blank : Text.isBlank c = true) : c ∉ respelled := by
  have signs : ∀ other ∈ respelled, Text.isBlank other = false :=
    Text.forall_mem_of_all (by decide)
  intro changes
  rw [signs c changes] at blank
  cases blank

end Canonical

/-! ## What has a value -/

namespace Lexeme

theorem map_ofRun_of_ofRuns {runs : List (Run Char)} {lexemes : List Lexeme}
    (read : ofRuns runs = .ok lexemes) : runs.map (ofRun 0) = lexemes.map .ok := by
  induction runs generalizing lexemes with
  | nil =>
    cases read
    rfl
  | cons run runs inductionHypothesis =>
    rw [ofRuns] at read
    obtain ⟨lexeme, here, continued⟩ := ok_of_bind read
    obtain ⟨rest, behind, result⟩ := ok_of_bind continued
    cases result
    rw [List.map_cons, List.map_cons, here, inductionHypothesis behind]

theorem lexeme_of_run {runs : List (Run Char)} {lexemes : List Lexeme}
    (read : ofRuns runs = .ok lexemes) {run : Run Char} (member : run ∈ runs) :
    ∃ lexeme ∈ lexemes, ofRun 0 run = .ok lexeme := by
  have listed := List.mem_map_of_mem (f := ofRun 0) member
  rw [map_ofRun_of_ofRuns read] at listed
  obtain ⟨lexeme, inside, same⟩ := List.mem_map.mp listed
  exact ⟨lexeme, inside, same.symm⟩

theorem run_of_lexeme {runs : List (Run Char)} {lexemes : List Lexeme}
    (read : ofRuns runs = .ok lexemes) {lexeme : Lexeme} (member : lexeme ∈ lexemes) :
    ∃ run ∈ runs, ofRun 0 run = .ok lexeme := by
  have listed := List.mem_map_of_mem (f := (.ok : Lexeme → Except Failure Lexeme)) member
  rw [← map_ofRun_of_ofRuns read] at listed
  exact List.mem_map.mp listed

theorem failure_of_ofRuns {runs : List (Run Char)} {failure : Failure}
    (failed : ofRuns runs = .error failure) : ∃ run ∈ runs, ofRun 0 run = .error failure := by
  induction runs with
  | nil => cases failed
  | cons run runs inductionHypothesis =>
    rw [ofRuns] at failed
    obtain here | ⟨lexeme, -, continued⟩ := error_of_bind failed
    · exact ⟨run, List.mem_cons_self, here⟩
    · obtain later | ⟨lexemes, -, ended⟩ := error_of_bind continued
      · obtain ⟨other, member, same⟩ := inductionHypothesis later
        exact ⟨other, List.mem_cons_of_mem _ member, same⟩
      · cases ended

end Lexeme

namespace Evaluation

theorem map_lexeme_token (lexemes : List Lexeme) :
    (lexemes.map Lexeme.token).map Token.lexeme = lexemes := by
  rw [List.map_map]
  exact List.map_id lexemes

theorem function_of_value {lexemes : List Lexeme} {value : Float}
    (valued : ofLexemes lexemes = .ok value) {name : String} (member : .word name ∈ lexemes) :
    ∃ f : UnaryFunction, name = f.name := by
  obtain ⟨items, ordered, -⟩ := ok_of_bind valued
  apply Postfix.State.function_of_items ordered
  rw [map_lexeme_token]
  exact member

theorem character_of_value {text : String} {value : Float} (valued : ofText text = .ok value)
    {c : Char} (member : c ∈ Canonical.canonicalChars text.toList) :
    Decimal.isNumeralChar c = true ∨ (∃ f : UnaryFunction, c ∈ f.name.toList) ∨
      (Lexeme.ofSymbol? c).isSome = true := by
  have read := withoutPosition_ofText text
  rw [valued] at read
  obtain ⟨lexemes, readable, evaluated⟩ := ok_of_bind read.symm
  obtain ⟨run, cut, inside⟩ := (Run.mem_iff_mem_run Lexeme.joins).mp member
  obtain ⟨lexeme, listed, found⟩ := Lexeme.lexeme_of_run readable cut
  have reads := Lexeme.reads_of_ofRun (Run.split_of_mem cut) found
  rw [← String.toList_ofList (l := run.toList)] at inside
  obtain numeral | rfl | sign := Lexeme.cases_of_reads reads
  · exact .inl (numeral c inside)
  · obtain ⟨f, named⟩ := function_of_value evaluated listed
    exact .inr (.inl ⟨f, named ▸ inside⟩)
  · exact .inr (.inr (sign c inside))

end Evaluation

/-! ## What fails -/

/-- The part of a text that a failure quotes. -/
def Failure.quoted : Failure → List Char
  | invalidCharacter character _ => [character]
  | invalidNumber numeral => numeral.toList
  | unknownFunction name => name.toList
  | _ => []

theorem Failure.quoted_withoutPosition (failure : Failure) :
    failure.withoutPosition.quoted = failure.quoted := by
  cases failure <;> rfl

namespace Lexeme

theorem quoted_of_ofRun {run : Run Char} {failure : Failure}
    (failed : ofRun 0 run = .error failure) : ∀ c ∈ failure.quoted, c ∈ run.toList := by
  intro c member
  rw [ofRun] at failed
  split at failed
  · split at failed
    · cases failed
    · cases failed
      rwa [Failure.quoted, String.toList_ofList] at member
  · split at failed
    · cases failed
    · split at failed
      · cases failed
      · cases failed
        rw [List.mem_singleton.mp member]
        exact List.mem_cons_self

end Lexeme

namespace Postfix

theorem quoted_of_closeGroup {state : State} {position : Nat} {failure : Failure}
    (failed : state.closeGroup position = .error failure) : failure.quoted = [] := by
  unfold State.closeGroup at failed
  split at failed
  · cases failed
    rfl
  · cases failed
  · cases failed

theorem quoted_of_step {state : State} {token : Token} {failure : Failure}
    (failed : state.step token = .error failure) :
    failure.quoted = [] ∨ ∃ name, token.lexeme = .word name ∧ failure.quoted = name.toList := by
  rw [State.step] at failed
  split at failed
  next => cases failed
  next name isWord =>
    split at failed
    · cases failed
    · cases failed
      exact .inr ⟨name, isWord, rfl⟩
  next =>
    split at failed
    · cases failed
    · cases failed
  next => cases failed
  next => exact .inl (quoted_of_closeGroup failed)

theorem quoted_of_items {state : State} {tokens : List Token} {failure : Failure}
    (failed : state.items tokens = .error failure) :
    failure.quoted = [] ∨
      ∃ name, .word name ∈ tokens.map Token.lexeme ∧ failure.quoted = name.toList := by
  induction tokens generalizing state with
  | nil =>
    rw [State.items, State.finish] at failed
    split at failed
    · cases failed
      exact .inl rfl
    · cases failed
  | cons token tokens inductionHypothesis =>
    rw [State.items] at failed
    obtain here | ⟨⟨emitted, next⟩, -, continued⟩ := error_of_bind failed
    · obtain nothing | ⟨name, isWord, same⟩ := quoted_of_step here
      · exact .inl nothing
      · exact .inr ⟨name, isWord ▸ List.mem_cons_self, same⟩
    · obtain later | ⟨rest, -, ended⟩ := error_of_bind continued
      · obtain nothing | ⟨name, listed, same⟩ := inductionHypothesis later
        · exact .inl nothing
        · exact .inr ⟨name, List.mem_cons_of_mem _ listed, same⟩
      · cases ended

end Postfix

namespace Evaluation

theorem quoted_of_ofLexemes {lexemes : List Lexeme} {failure : Failure}
    (failed : ofLexemes lexemes = .error failure) :
    failure.quoted = [] ∨ ∃ name, .word name ∈ lexemes ∧ failure.quoted = name.toList := by
  rw [ofLexemes, ofTokens] at failed
  obtain disordered | ⟨items, -, evaluated⟩ := error_of_bind failed
  · have quoted := Postfix.quoted_of_items disordered
    rwa [map_lexeme_token] at quoted
  · obtain rfl | rfl | ⟨f, argument, rfl⟩ := Postfix.failure_of_evaluate evaluated
    all_goals exact .inl rfl

theorem mem_of_quoted {text : String} {failure : Failure} (failed : ofText text = .error failure)
    {c : Char} (member : c ∈ failure.quoted) : c ∈ Canonical.canonicalChars text.toList := by
  have read := withoutPosition_ofText text
  rw [failed] at read
  rw [← Failure.quoted_withoutPosition] at member
  rw [Run.mem_iff_mem_run Lexeme.joins]
  change Except.error failure.withoutPosition = _ at read
  generalize failure.withoutPosition = positionless at read member
  obtain unreadable | ⟨lexemes, readable, failedBehind⟩ := error_of_bind read.symm
  · obtain ⟨run, cut, failedHere⟩ := Lexeme.failure_of_ofRuns unreadable
    exact ⟨run, cut, Lexeme.quoted_of_ofRun failedHere c member⟩
  · obtain nothing | ⟨name, listed, same⟩ := quoted_of_ofLexemes failedBehind
    · rw [nothing] at member
      cases member
    · obtain ⟨run, cut, found⟩ := Lexeme.run_of_lexeme readable listed
      have reads := Lexeme.reads_of_ofRun (Run.split_of_mem cut) found
      rw [same, ← (Lexeme.letters_of_word reads).1, String.toList_ofList] at member
      exact ⟨run, cut, member⟩

/-- A failure quotes no blank unless the typed text has one. -/
theorem quoted_not_blank {text : String} (plain : ∀ c ∈ text.toList, Text.isBlank c = false)
    {failure : Failure} (failed : ofText text = .error failure) :
    ∀ c ∈ failure.quoted, Text.isBlank c = false := by
  intro c member
  cases blank : Text.isBlank c with
  | false => rfl
  | true =>
    have inside := mem_of_quoted failed member
    rw [Canonical.mem_canonicalChars_iff (Canonical.not_respelled_of_isBlank blank)] at inside
    rw [plain c inside] at blank
    cases blank

end Evaluation

/-! ## What messages repeat -/

/-- The part of a text that the message of a failure repeats. -/
def Failure.repeated : Failure → List Char
  | invalidNumber numeral => numeral.toList
  | unknownFunction name => name.toList
  | _ => []

theorem Failure.repeated_withoutPosition (failure : Failure) :
    failure.withoutPosition.repeated = failure.repeated := by
  cases failure <;> rfl

theorem Failure.repeated_subset_quoted (failure : Failure) :
    failure.repeated ⊆ failure.quoted := by
  cases failure with
  | invalidNumber => exact List.Subset.refl _
  | unknownFunction => exact List.Subset.refl _
  | _ => exact List.nil_subset _

namespace Lexeme

theorem isOperandChar_of_ofRun {text : List Char} {run : Run Char}
    (member : run ∈ Run.split joins text) {failure : Failure}
    (failed : ofRun 0 run = .error failure) :
    ∀ c ∈ failure.repeated, Canonical.isOperandChar c = true := by
  intro c inside
  rw [ofRun] at failed
  split at failed
  next numeral =>
    split at failed
    · cases failed
    · cases failed
      rw [Failure.repeated, String.toList_ofList] at inside
      rw [Canonical.isOperandChar, isNumeralChar_of_run member numeral c inside]
      rfl
  next =>
    split at failed
    · cases failed
    · split at failed
      · cases failed
      · cases failed
        cases inside

theorem isOperandChar_of_word {text : List Char} {run : Run Char}
    (member : run ∈ Run.split joins text) {name : String}
    (read : ofRun 0 run = .ok (.word name)) :
    ∀ c ∈ name.toList, Canonical.isOperandChar c = true := by
  obtain ⟨-, letters⟩ := letters_of_word (reads_of_ofRun (Run.split_of_mem member) read)
  intro c inside
  rw [Canonical.isOperandChar, letters c inside, Bool.or_true]
  rfl

end Lexeme

/-- Messages repeat characters of operands only, whatever the text is. -/
theorem Evaluation.isOperandChar_of_repeated {text : String} {failure : Failure}
    (failed : ofText text = .error failure) :
    ∀ c ∈ failure.repeated, Canonical.isOperandChar c = true := by
  have read := withoutPosition_ofText text
  rw [failed] at read
  rw [← Failure.repeated_withoutPosition]
  change Except.error failure.withoutPosition = _ at read
  generalize failure.withoutPosition = positionless at read
  obtain unreadable | ⟨lexemes, readable, failedBehind⟩ := error_of_bind read.symm
  · obtain ⟨run, cut, failedHere⟩ := Lexeme.failure_of_ofRuns unreadable
    exact Lexeme.isOperandChar_of_ofRun cut failedHere
  · intro c inside
    have quoted := positionless.repeated_subset_quoted inside
    obtain nothing | ⟨name, listed, same⟩ := quoted_of_ofLexemes failedBehind
    · rw [nothing] at quoted
      cases quoted
    · obtain ⟨run, cut, found⟩ := Lexeme.run_of_lexeme readable listed
      rw [same] at quoted
      exact Lexeme.isOperandChar_of_word cut found c quoted

end Keypad
