import Mathlib.Data.List.Chain
import Mathlib.Data.String.Basic
import Keypad.Proofs.Token.Spans

/-!
# Tokens tile the text

The spans of the tokens follow each other from the start of the text to its end, each token says what
the stretch of text at its span says, and no numeral or word is cut in two. Nothing but the tokens
that scanning gives is of this kind (`scan_eq_ok_iff_tiling`).
-/

namespace Keypad

open Token (byteLength byteLength_append utf8ByteSize_ofList)

/-! ## Tilings -/

/-- The stretch of a text at a span. -/
def Span.slice (span : Span) (text : String) : String :=
  String.Pos.Raw.extract text ⟨span.start⟩ ⟨span.stop⟩

/-- Spans that lead from one offset to another, none of them empty. -/
def Span.Consecutive : Nat → List Span → Nat → Prop
  | start, [], stop => start = stop
  | start, span :: later, stop =>
    span.start = start ∧ span.start < span.stop ∧ Consecutive span.stop later stop

namespace Lexeme

/-- Two numbers, or two words. -/
def alike (left right : Lexeme) : Bool :=
  (left.isNumber && right.isNumber) || (left.isWord && right.isWord)

theorem joins_eq_alike {left right : Lexeme} {front back : String} (leftReads : left.Reads front)
    (rightReads : right.Reads back) {last next : Char} (isLast : last ∈ front.toList)
    (isNext : next ∈ back.toList) : joins last next = left.alike right := by
  obtain ⟨leftNumeral, leftLetter⟩ := class_of_reads leftReads last isLast
  obtain ⟨rightNumeral, rightLetter⟩ := class_of_reads rightReads next isNext
  rw [joins, alike, leftNumeral, leftLetter, rightNumeral, rightLetter]

end Lexeme

/-- Tokens that cover a text without gaps, at boundaries of its characters. Each reads its own slice,
    and numerals and words reach as far as they can. -/
structure Token.Tiling (text : String) (tokens : List Token) : Prop where
  consecutive : Span.Consecutive 0 (tokens.map Token.span) text.utf8ByteSize
  boundaries : ∀ token ∈ tokens, String.Pos.Raw.IsValid text ⟨token.span.start⟩ ∧
    String.Pos.Raw.IsValid text ⟨token.span.stop⟩
  read : ∀ token ∈ tokens, token.lexeme.Reads (token.span.slice text)
  apart : tokens.IsChain fun left right => left.lexeme.alike right.lexeme = false

/-! ## Slices -/

namespace Token

theorem byteLength_toList (text : String) : byteLength text.toList = text.utf8ByteSize := by
  rw [← utf8ByteSize_ofList, String.ofList_toList]

theorem eq_nil_of_byteLength {text : List Char} (empty : byteLength text = 0) : text = [] := by
  cases text with
  | nil => rfl
  | cons c text =>
    have positive := c.utf8Size_pos
    rw [byteLength_cons] at empty
    omega

end Token

namespace Span

theorem utf8Len_eq_byteLength (text : List Char) : String.utf8Len text = byteLength text := by
  rw [← utf8ByteSize_ofList, String.utf8ByteSize_ofList]

theorem slice_of_append {text : String} {span : Span} {before slice after : List Char}
    (same : text.toList = before ++ slice ++ after) (starts : span.start = byteLength before)
    (stops : span.stop = byteLength (before ++ slice)) : span.slice text = String.ofList slice := by
  have extracted := String.extract_of_valid before slice after
  rw [← same, String.ofList_toList, utf8Len_eq_byteLength, utf8Len_eq_byteLength,
    ← byteLength_append, ← starts, ← stops] at extracted
  exact extracted

theorem isValid_of_append {text : String} {before after : List Char}
    (same : text.toList = before ++ after) :
    String.Pos.Raw.IsValid text ⟨byteLength before⟩ := by
  rw [String.Pos.Raw.isValid_iff_exists_append]
  refine ⟨String.ofList before, String.ofList after, ?_, ?_⟩
  · rw [← String.ofList_append, ← same, String.ofList_toList]
  · rw [← utf8ByteSize_ofList]
    rfl

/-- A boundary further on cuts off a slice of what is left of the text. -/
theorem exists_slice {text : String} {before rest : List Char} {stop : Nat}
    (same : text.toList = before ++ rest) (further : byteLength before ≤ stop)
    (valid : String.Pos.Raw.IsValid text ⟨stop⟩) :
    ∃ slice after, rest = slice ++ after ∧ stop = byteLength (before ++ slice) := by
  obtain ⟨front, back, cut, offset⟩ := String.Pos.Raw.isValid_iff_exists_append.mp valid
  have size : stop = byteLength front.toList := by
    rw [Token.byteLength_toList]
    exact congrArg String.Pos.Raw.byteIdx offset
  rw [cut, String.toList_append] at same
  obtain ⟨missing, rfl, -⟩ | ⟨slice, longer, cutRest⟩ := List.append_eq_append_iff.mp same
  · rw [byteLength_append, size] at further
    have empty : missing = [] := Token.eq_nil_of_byteLength (by omega)
    exact ⟨[], rest, rfl, by simp [empty, size]⟩
  · exact ⟨slice, back.toList, cutRest, by rw [size, longer]⟩

end Span

/-! ## From runs to tokens and back -/

namespace Token

/-- The first token of a text is read from a slice that begins as the text does. -/
theorem head_of_ofRuns {c : Char} {later : List Char} {position : Nat} {tokens : List Token}
    (read : ofRuns position (Run.split Lexeme.joins (c :: later)) = .ok tokens) :
    ∃ token rest slice, tokens = token :: rest ∧ token.lexeme.Reads slice ∧ c ∈ slice.toList := by
  obtain ⟨run, runs, cut, rfl⟩ := Run.split_cons Lexeme.joins c later
  have alone : Run.split Lexeme.joins run.toList = [run] :=
    Run.split_of_mem (cut ▸ List.mem_cons_self)
  rw [cut] at read
  obtain ⟨lexeme, rest, here, -, rfl⟩ := ofRuns_cons_eq_ok_iff.mp read
  exact ⟨_, rest, _, rfl, Lexeme.reads_of_ofRun alone here, by simp [Run.toList]⟩

/-- A slice joins what is behind it exactly if its token is like the next one. -/
theorem apart_iff {slice later : List Char} {lexeme : Lexeme} {position : Nat}
    {tokens : List Token} (nonempty : slice ≠ []) (reads : lexeme.Reads (String.ofList slice))
    (behind : ofRuns position (Run.split Lexeme.joins later) = .ok tokens) :
    (∀ last ∈ slice.getLast?, ∀ next ∈ later.head?, Lexeme.joins last next = false) ↔
      ∀ next ∈ tokens.head?, lexeme.alike next.lexeme = false := by
  cases later with
  | nil =>
    cases behind
    simp
  | cons c later =>
    obtain ⟨token, rest, nextSlice, rfl, nextReads, isNext⟩ := head_of_ofRuns behind
    have isLast : slice.getLast nonempty ∈ (String.ofList slice).toList := by simp
    have same := Lexeme.joins_eq_alike reads nextReads isLast isNext
    simp [List.getLast?_eq_some_getLast nonempty, same]

theorem consecutive_of_ofRuns {position : Nat} {runs : List (Run Char)} {tokens : List Token}
    (read : ofRuns position runs = .ok tokens) :
    Span.Consecutive position (tokens.map Token.span)
      (position + byteLength (runs.flatMap Run.toList)) := by
  induction runs generalizing position tokens with
  | nil =>
    cases read
    rfl
  | cons run runs inductionHypothesis =>
    obtain ⟨lexeme, rest, here, behind, rfl⟩ := ofRuns_cons_eq_ok_iff.mp read
    have positive := run.first.utf8Size_pos
    refine ⟨rfl, ?_, ?_⟩
    · simp only [Run.toList, byteLength_cons]
      omega
    · rw [List.flatMap_cons, byteLength_append, ← Nat.add_assoc]
      exact inductionHypothesis behind

theorem apart_of_ofRuns {text : List Char} {position : Nat} {tokens : List Token}
    (read : ofRuns position (Run.split Lexeme.joins text) = .ok tokens) :
    tokens.IsChain fun left right => left.lexeme.alike right.lexeme = false := by
  induction text using Run.induction_on_split Lexeme.joins generalizing position tokens with
  | nil =>
    cases read
    exact List.isChain_nil
  | cons run later alone apart inductionHypothesis =>
    rw [Run.split_append_of_apart apart, alone, List.singleton_append] at read
    obtain ⟨lexeme, rest, here, behind, rfl⟩ := ofRuns_cons_eq_ok_iff.mp read
    rw [List.isChain_cons]
    constructor
    · exact (apart_iff run.toList_ne_nil (Lexeme.reads_of_ofRun alone here) behind).mp apart
    · exact inductionHypothesis behind

theorem slice_of_scan {text : String} {tokens : List Token} (scanned : scan text = .ok tokens)
    {token : Token} (member : token ∈ tokens) :
    String.Pos.Raw.IsValid text ⟨token.span.start⟩ ∧
      String.Pos.Raw.IsValid text ⟨token.span.stop⟩ ∧
      token.lexeme.Reads (token.span.slice text) := by
  obtain ⟨front, back, rfl⟩ := List.append_of_mem member
  obtain ⟨before, run, after, same, -, alone, starts, stops, found⟩ := stretch_of_scan scanned
  have cut : text.toList = before.toList ++ run.toList ++ after.toList := by
    rw [same]
    simp
  rw [← byteLength_toList] at starts stops
  rw [String.toList_append, String.toList_ofList] at stops
  have startValid := Span.isValid_of_append (cut.trans (List.append_assoc _ _ _))
  have stopValid := Span.isValid_of_append cut
  rw [← starts] at startValid
  rw [← stops] at stopValid
  rw [Span.slice_of_append cut starts stops]
  exact ⟨startValid, stopValid, Lexeme.reads_of_ofRun alone found⟩

theorem tiling_of_scan {text : String} {tokens : List Token} (scanned : scan text = .ok tokens) :
    Tiling text tokens := by
  constructor
  · have covered := consecutive_of_ofRuns scanned
    rwa [Run.flatMap_toList_split, Nat.zero_add, byteLength_toList] at covered
  · intro token member
    obtain ⟨startValid, stopValid, -⟩ := slice_of_scan scanned member
    exact ⟨startValid, stopValid⟩
  · intro token member
    exact (slice_of_scan scanned member).2.2
  · exact apart_of_ofRuns scanned

/-- A slice whose token is not like the next one is read as one more token. -/
theorem ofRuns_slice_append {slice after : List Char} {lexeme : Lexeme} {position : Nat}
    {tokens : List Token} (nonempty : slice ≠ []) (reads : lexeme.Reads (String.ofList slice))
    (behind : ofRuns (position + byteLength slice) (Run.split Lexeme.joins after) = .ok tokens)
    (apart : ∀ next ∈ tokens.head?, lexeme.alike next.lexeme = false) :
    ofRuns position (Run.split Lexeme.joins (slice ++ after)) =
      .ok (⟨lexeme, ⟨position, position + byteLength slice⟩⟩ :: tokens) := by
  have boundary := (apart_iff nonempty reads behind).mpr apart
  rw [Run.split_append_of_apart boundary]
  cases slice with
  | nil => exact absurd rfl nonempty
  | cons first more =>
    obtain ⟨alone, here⟩ := @Lexeme.ofRun_of_reads ⟨first, more⟩ lexeme reads
    change Run.split Lexeme.joins (first :: more) = _ at alone
    rw [alone, List.singleton_append]
    exact ofRuns_cons_eq_ok_iff.mpr ⟨lexeme, tokens, here position, behind, rfl⟩

/-- What is left of a text behind some of its tokens is scanned into the others. -/
theorem ofRuns_of_tiling {text : String} {tokens : List Token}
    (boundaries : ∀ token ∈ tokens, String.Pos.Raw.IsValid text ⟨token.span.stop⟩)
    (read : ∀ token ∈ tokens, token.lexeme.Reads (token.span.slice text))
    (apart : tokens.IsChain fun left right => left.lexeme.alike right.lexeme = false)
    {before rest : List Char} (same : text.toList = before ++ rest)
    (consecutive : Span.Consecutive (byteLength before) (tokens.map Token.span)
      text.utf8ByteSize) :
    ofRuns (byteLength before) (Run.split Lexeme.joins rest) = .ok tokens := by
  induction tokens generalizing before rest with
  | nil =>
    have whole : byteLength before = byteLength (before ++ rest) := by
      rw [← same, byteLength_toList]
      exact consecutive
    rw [byteLength_append] at whole
    have nothing : rest = [] := eq_nil_of_byteLength (by omega)
    rw [nothing]
    rfl
  | cons token later inductionHypothesis =>
    obtain ⟨starts, further, continued⟩ := consecutive
    obtain ⟨slice, after, rfl, stops⟩ := Span.exists_slice same (starts ▸ further.le)
      (boundaries token List.mem_cons_self)
    have cut : text.toList = before ++ slice ++ after := by rw [same, List.append_assoc]
    have reads := read token List.mem_cons_self
    rw [Span.slice_of_append cut starts stops] at reads
    rw [stops] at continued
    have behind := inductionHypothesis
      (fun token member => boundaries token (List.mem_cons_of_mem _ member))
      (fun token member => read token (List.mem_cons_of_mem _ member))
      (List.isChain_cons.mp apart).2 cut continued
    rw [byteLength_append] at behind stops
    have nonempty : slice ≠ [] := by
      rintro rfl
      rw [Token.byteLength_nil] at stops
      omega
    rw [ofRuns_slice_append nonempty reads behind (List.isChain_cons.mp apart).1, ← stops, ← starts]

theorem scan_of_tiling {text : String} {tokens : List Token} (tiling : Tiling text tokens) :
    scan text = .ok tokens :=
  ofRuns_of_tiling (fun token member => (tiling.boundaries token member).2) tiling.read
    tiling.apart (List.nil_append text.toList).symm tiling.consecutive

/-- Scanning a text gives the tokens that tile it, if there are any, and no other tokens tile the
    same text. -/
theorem scan_eq_ok_iff_tiling (text : String) :
    (∀ tokens, scan text = .ok tokens ↔ Tiling text tokens) ∧
      ∀ tokens, Tiling text tokens → ∀ other, Tiling text other ↔ other = tokens := by
  constructor
  · intro tokens
    exact ⟨tiling_of_scan, scan_of_tiling⟩
  · intro tokens tiling other
    constructor
    · intro otherTiling
      have scanned := scan_of_tiling tiling
      rw [scan_of_tiling otherTiling] at scanned
      cases scanned
      rfl
    · rintro rfl
      exact tiling

def besideWord : List Token :=
  [⟨.word "sin", ⟨0, 3⟩⟩, ⟨.number 90, ⟨3, 5⟩⟩, ⟨.operator .add, ⟨5, 6⟩⟩, ⟨.number 0.5, ⟨6, 8⟩⟩]

theorem scan_eq_ok_iff_tiling_of_besideWord :
    scan "sin90+.5" = .ok besideWord ∧ Tiling "sin90+.5" besideWord ∧
      ∀ other, Tiling "sin90+.5" other ↔ other = besideWord := by
  obtain ⟨tiles, unique⟩ := scan_eq_ok_iff_tiling "sin90+.5"
  have scanned : scan "sin90+.5" = .ok besideWord := ok_of_toOption (by decide +kernel)
  have tiling := (tiles besideWord).mp scanned
  exact ⟨scanned, tiling, unique besideWord tiling⟩

end Token

end Keypad
