import Keypad.Proofs.Token.Slices

/-!
# Where tokens stand

Every token is read from the stretch of text that its span gives, and the text in front of it is read
as the tokens in front of it (`stretch_of_scan`). A token that is no number is written in the text as
it is listed (`text_of_scan`).
-/

namespace Keypad

namespace Token

/-- The first run gives the first token, and the others are read behind it. -/
theorem ofRuns_cons_eq_ok_iff {position : Nat} {run : Run Char} {runs : List (Run Char)}
    {tokens : List Token} :
    ofRuns position (run :: runs) = .ok tokens ↔
      ∃ lexeme rest, Lexeme.ofRun position run = .ok lexeme ∧
        ofRuns (position + byteLength run.toList) runs = .ok rest ∧
        tokens = ⟨lexeme, ⟨position, position + byteLength run.toList⟩⟩ :: rest := by
  constructor
  · intro read
    rw [ofRuns] at read
    obtain ⟨lexeme, here, continued⟩ := ok_of_bind read
    obtain ⟨rest, behind, result⟩ := ok_of_bind continued
    cases result
    exact ⟨lexeme, rest, here, behind, rfl⟩
  · rintro ⟨lexeme, rest, here, behind, rfl⟩
    rw [ofRuns, here]
    change (ofRuns _ runs).bind _ = _
    rw [behind]
    rfl

theorem run_of_ofRuns {position : Nat} {runs : List (Run Char)} {front back : List Token}
    {token : Token} (read : ofRuns position runs = .ok (front ++ token :: back)) :
    ∃ frontRuns run backRuns, runs = frontRuns ++ run :: backRuns ∧
      ofRuns position frontRuns = .ok front ∧
      token.span.start = position + byteLength (frontRuns.flatMap Run.toList) ∧
      token.span.stop = token.span.start + byteLength run.toList ∧
      Lexeme.ofRun token.span.start run = .ok token.lexeme := by
  induction front generalizing position runs with
  | nil =>
    cases runs with
    | nil => cases read
    | cons run runs =>
      obtain ⟨lexeme, rest, here, -, same⟩ := ofRuns_cons_eq_ok_iff.mp read
      cases same
      exact ⟨[], run, runs, rfl, rfl, rfl, rfl, here⟩
  | cons first front inductionHypothesis =>
    cases runs with
    | nil => cases read
    | cons firstRun runs =>
      obtain ⟨lexeme, rest, here, behind, same⟩ := ofRuns_cons_eq_ok_iff.mp read
      cases same
      obtain ⟨frontRuns, run, backRuns, rfl, frontRead, starts, stops, found⟩ :=
        inductionHypothesis behind
      refine ⟨firstRun :: frontRuns, run, backRuns, rfl, ?_, ?_, stops, found⟩
      · exact ofRuns_cons_eq_ok_iff.mpr ⟨lexeme, front, here, frontRead, rfl⟩
      · rw [starts, List.flatMap_cons, byteLength_append, Nat.add_assoc]

/-- The stretch of text that a token was read from. -/
theorem stretch_of_scan {text : String} {front back : List Token} {token : Token}
    (scanned : scan text = .ok (front ++ token :: back)) :
    ∃ (before : String) (run : Run Char) (after : String),
      text = before ++ String.ofList run.toList ++ after ∧
      scan before = .ok front ∧ Run.split Lexeme.joins run.toList = [run] ∧
      token.span.start = before.utf8ByteSize ∧
      token.span.stop = (before ++ String.ofList run.toList).utf8ByteSize ∧
      Lexeme.ofRun token.span.start run = .ok token.lexeme := by
  obtain ⟨frontRuns, run, backRuns, cut, frontRead, starts, stops, found⟩ := run_of_ofRuns scanned
  obtain ⟨before, after, same, frontCut, alone, -, -⟩ := Run.exists_of_split_eq_append cut
  have size : byteLength (frontRuns.flatMap Run.toList) = byteLength before := by
    rw [← frontCut, Run.flatMap_toList_split]
  rw [size, Nat.zero_add] at starts
  refine ⟨String.ofList before, run, String.ofList after, ?_, ?_, alone, ?_, ?_, found⟩
  · rw [← String.ofList_append, ← String.ofList_append, ← same, String.ofList_toList]
  · rw [scan, String.toList_ofList, frontCut]
    exact frontRead
  · rw [starts, utf8ByteSize_ofList]
  · rw [stops, starts, String.utf8ByteSize_append, utf8ByteSize_ofList, utf8ByteSize_ofList]

/-- A token that is no number stands in the text as it is listed, at its span. -/
theorem text_of_scan {text : String} {front back : List Token} {token : Token}
    (scanned : scan text = .ok (front ++ token :: back))
    (other : ∀ value, token.lexeme ≠ .number value) :
    ∃ before after, text = before ++ token.lexeme.text ++ after ∧ scan before = .ok front ∧
      token.span.start = before.utf8ByteSize := by
  obtain ⟨before, run, after, same, frontScanned, alone, starts, -, found⟩ :=
    stretch_of_scan scanned
  have listed : token.lexeme.text = String.ofList run.toList :=
    Lexeme.text_of_reads (Lexeme.reads_of_ofRun alone found) other
  refine ⟨before, after, ?_, frontScanned, starts⟩
  rw [listed]
  exact same

end Token

end Keypad
