import Keypad.Proofs.Text.Pieces
import Keypad.Session

/-!
# Sessions over encoded texts

A session cuts bytes into lines and decodes every line. Bytes that encode a text are cut where the
text has its newlines, since no character but the newline has a byte in common with it
(`rawLines_encode`), and every line is decoded (`decode?_encode`).
-/

namespace Keypad.Session

/-- The bytes of a text in UTF-8. -/
def encode (text : List Char) : List UInt8 :=
  text.flatMap String.utf8EncodeChar

@[simp] theorem encode_append (text later : List Char) :
    encode (text ++ later) = encode text ++ encode later :=
  List.flatMap_append

@[simp] theorem encode_cons (c : Char) (text : List Char) :
    encode (c :: text) = String.utf8EncodeChar c ++ encode text :=
  List.flatMap_cons

theorem toUTF8_eq_encode (text : String) : text.toUTF8.data.toList = encode text.toList := by
  rw [String.toUTF8, ← String.utf8Encode_toList, List.utf8Encode, List.toList_data_toByteArray]
  rfl

/-- In an encoding of more than one byte every byte is at least 128. -/
theorem le_of_mem_utf8EncodeChar {c : Char} (long : 127 < c.val.toNat) :
    ∀ byte ∈ String.utf8EncodeChar c, 128 ≤ byte.toNat := by
  unfold String.utf8EncodeChar
  simp only
  split
  · omega
  · repeat' split
    all_goals
      simp only [List.forall_mem_cons, UInt8.toNat_ofNat', List.not_mem_nil, false_implies,
        implies_true, and_true]
      omega

/-- A byte below 128 occurs in the encoding of one character only, and is the whole of it. -/
theorem eq_of_mem_utf8EncodeChar {c : Char} {byte : UInt8} (ascii : byte.toNat < 128)
    (member : byte ∈ String.utf8EncodeChar c) :
    c = Char.ofNat byte.toNat ∧ String.utf8EncodeChar c = [byte] := by
  have short : c.val.toNat ≤ 127 := by
    apply Nat.not_lt.mp
    intro long
    exact absurd (le_of_mem_utf8EncodeChar long byte member) (Nat.not_le.mpr ascii)
  have single : String.utf8EncodeChar c = [c.val.toUInt8] := by
    apply String.utf8EncodeChar_eq_singleton
    rw [Char.utf8Size_eq_one_iff, UInt32.le_iff_toNat_le]
    exact short
  rw [single] at member ⊢
  cases List.mem_singleton.mp member
  refine ⟨?_, rfl⟩
  have same : c.val.toUInt8.toNat = c.toNat := by
    rw [UInt32.toNat_toUInt8]
    exact Nat.mod_eq_of_lt (by omega)
  rw [same, Char.ofNat_toNat]

theorem newline_not_mem_encode {text : List Char} (unbroken : '\n' ∉ text) :
    newline ∉ encode text := by
  intro member
  obtain ⟨c, inside, byte⟩ := List.mem_flatMap.mp member
  rw [(eq_of_mem_utf8EncodeChar (by decide) byte).1] at inside
  exact unbroken inside

theorem rawLines_encode (text : List Char) :
    rawLines (encode text) = (Text.cutBehind (· == '\n') text).map encode := by
  change Text.cutBehind (· == newline) (encode text) = _
  have endless {line : List Char} (unbroken : ∀ c ∈ line, (c == '\n') = false) :
      ∀ byte ∈ encode line, (byte == newline) = false := by
    intro byte member
    rw [beq_eq_false_iff_ne]
    rintro rfl
    refine newline_not_mem_encode (fun broken => ?_) member
    exact absurd (unbroken _ broken) (by decide)
  induction text using Text.induction_on_pieces (· == '\n') with
  | nil => rfl
  | rest line nonempty unbroken =>
    have filled : encode line ≠ [] := by
      obtain ⟨c, later, rfl⟩ := List.exists_cons_of_ne_nil nonempty
      rw [encode_cons]
      exact List.append_ne_nil_of_left_ne_nil String.utf8EncodeChar_ne_nil _
    rw [Text.cutBehind_endless (endless unbroken) filled, Text.cutBehind_endless unbroken nonempty]
    rfl
  | append line last later unbroken isEnd inductionHypothesis =>
    cases beq_iff_eq.mp isEnd
    have ended : encode (line ++ '\n' :: later) = encode line ++ newline :: encode later :=
      encode_append line ('\n' :: later)
    rw [ended, Text.cutBehind_append (endless unbroken) rfl, Text.cutBehind_append unbroken rfl,
      inductionHypothesis, List.map_cons, encode_append]
    rfl

/-! ## Decoding -/

theorem byteArray_encode (text : List Char) :
    ByteArray.mk (encode text).toArray = text.utf8Encode := by
  apply ByteArray.ext
  apply Array.toList_inj.mp
  rw [List.utf8Encode, List.toList_data_toByteArray]
  rfl

theorem fromUTF8?_encode (text : List Char) :
    String.fromUTF8? (ByteArray.mk (encode text).toArray) = some (String.ofList text) := by
  rw [byteArray_encode, String.fromUTF8?, dif_pos ByteArray.isValidUTF8_utf8Encode]
  rfl

theorem dropLast_encode {line : List Char} {byte : UInt8} (ascii : byte.toNat < 128)
    (last : (encode line).getLast? = some byte) :
    ∃ front, line = front ++ [Char.ofNat byte.toNat] ∧ (encode line).dropLast = encode front := by
  obtain rfl | ⟨front, c, rfl⟩ := List.eq_nil_or_concat line
  · cases last
  · simp only [List.concat_eq_append, encode_append] at last ⊢
    have single : encode [c] = String.utf8EncodeChar c := List.flatMap_singleton _ _
    rw [single] at last ⊢
    have inside : byte ∈ String.utf8EncodeChar c := by
      rw [List.getLast?_append] at last
      cases found : (String.utf8EncodeChar c).getLast? with
      | none => exact absurd (List.getLast?_eq_none_iff.mp found) String.utf8EncodeChar_ne_nil
      | some other =>
        rw [found] at last
        cases last
        exact List.mem_of_getLast? found
    obtain ⟨rfl, alone⟩ := eq_of_mem_utf8EncodeChar ascii inside
    rw [alone, List.dropLast_concat]
    exact ⟨front, rfl, rfl⟩

/-- A line is decoded to its text, apart from blanks at its end. -/
theorem decode?_encode (line : List Char) :
    ∃ decoded, decode? (encode line) = some decoded ∧
      Text.nonblank decoded.toList = Text.nonblank line := by
  suffices trimmed : ∃ front, content (encode line) = encode front ∧
      Text.nonblank front = Text.nonblank line by
    obtain ⟨front, same, kept⟩ := trimmed
    refine ⟨String.ofList front, ?_, ?_⟩
    · rw [decode?, same, fromUTF8?_encode]
    · rw [String.toList_ofList, kept]
  rw [content]
  split
  next ended =>
    obtain ⟨front, rfl, dropped⟩ := dropLast_encode (by decide) ended
    simp only [dropped]
    have newlineBlank : Text.nonblank [Char.ofNat newline.toNat] = [] := by decide
    split
    next returned =>
      obtain ⟨earlier, rfl, cut⟩ := dropLast_encode (by decide) returned
      have returnBlank : Text.nonblank [Char.ofNat carriageReturn.toNat] = [] := by decide
      refine ⟨earlier, cut, ?_⟩
      rw [Text.nonblank_append, Text.nonblank_append, newlineBlank, returnBlank, List.append_nil,
        List.append_nil]
    next =>
      refine ⟨front, rfl, ?_⟩
      rw [Text.nonblank_append, newlineBlank, List.append_nil]
  next => exact ⟨line, rfl, rfl⟩

/-! ## Lines that are no text -/

/-- Whether bytes are a text in UTF-8. -/
def isText (bytes : List UInt8) : Bool :=
  (ByteArray.mk bytes.toArray).validateUTF8

theorem isText_iff {bytes : List UInt8} : isText bytes = true ↔ ∃ text, bytes = encode text := by
  rw [isText, ByteArray.validateUTF8_eq_true_iff]
  constructor
  · rintro ⟨text, same⟩
    rw [← byteArray_encode] at same
    exact ⟨text, Array.toList_inj.mpr (congrArg ByteArray.data same)⟩
  · rintro ⟨text, rfl⟩
    exact ⟨text, byteArray_encode text⟩

/-- What is taken away at the end of a line is text. -/
theorem exists_ending (rawLine : List UInt8) :
    ∃ ending, rawLine = content rawLine ++ encode ending := by
  rw [content]
  split
  next ended =>
    obtain ⟨line, rfl⟩ := List.getLast?_eq_some_iff.mp ended
    simp only [List.dropLast_concat]
    split
    next returned =>
      obtain ⟨front, rfl⟩ := List.getLast?_eq_some_iff.mp returned
      refine ⟨['\r', '\n'], ?_⟩
      rw [List.dropLast_concat, List.append_assoc]
      rfl
    next => exact ⟨['\n'], rfl⟩
  next => exact ⟨[], (List.append_nil rawLine).symm⟩

/-- A line can be read exactly if it is text together with its end. -/
theorem isSome_decode? (rawLine : List UInt8) : (decode? rawLine).isSome = isText rawLine := by
  rw [Bool.eq_iff_iff, isText_iff]
  constructor
  · intro readable
    rw [decode?, String.fromUTF8?] at readable
    split at readable
    next valid =>
      obtain ⟨text, same⟩ := isText_iff.mp (ByteArray.validateUTF8_eq_true_iff.mpr valid)
      obtain ⟨ending, whole⟩ := exists_ending rawLine
      refine ⟨text ++ ending, ?_⟩
      rw [whole, same, encode_append]
    next => cases readable
  · rintro ⟨line, rfl⟩
    obtain ⟨decoded, found, -⟩ := decode?_encode line
    rw [found]
    rfl

end Keypad.Session
