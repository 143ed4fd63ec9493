import EndpointTree.Json.Parser
import EndpointTree.Proofs.Http.PlainText

/-!
# Strings of a document there and back

The printer escapes a character or leaves it as it is; the reader undoes the one and passes
over the other, byte by byte. So the bytes between the quotes of a printed string are read as
the bytes of the string, and these are the string again, whatever its characters are.

* `Json.bytesOf` is what the reader sees of characters.
* `Json.stringAfterQuote_quoted`: a printed string is read back.
-/

namespace EndpointTree.Json

/-! ## Bytes -/

/-- The bytes of characters. -/
def bytesOf (cs : List Char) : List UInt8 := cs.flatMap String.utf8EncodeChar

theorem bytesOf_append (cs ds : List Char) : bytesOf (cs ++ ds) = bytesOf cs ++ bytesOf ds :=
  List.flatMap_append

theorem bytesOf_cons (c : Char) (cs : List Char) :
    bytesOf (c :: cs) = String.utf8EncodeChar c ++ bytesOf cs := rfl

/-- A character of ASCII is encoded as one byte. -/
theorem utf8EncodeChar_ascii {c : Char} (ascii : c.toNat < 128) :
    String.utf8EncodeChar c = [byte c] := by
  have small : c.val.toNat ≤ 127 := Nat.le_of_lt_succ ascii
  rw [String.utf8EncodeChar, if_pos small]
  rfl

theorem bytesOf_cons_ascii {c : Char} (ascii : c.toNat < 128) (cs : List Char) :
    bytesOf (c :: cs) = byte c :: bytesOf cs := by
  rw [bytesOf_cons, utf8EncodeChar_ascii ascii, List.singleton_append]

theorem toByteArray_eq (s : String) : s.toByteArray = (bytesOf s.toList).toByteArray := by
  have encoded : (String.ofList s.toList).toByteArray = (bytesOf s.toList).toByteArray :=
    String.toByteArray_ofList
  rwa [String.ofList_toList] at encoded

/-- The bytes of a text are those of its characters. -/
theorem toList_toUTF8 (s : String) : s.toUTF8.toList = bytesOf s.toList := by
  rw [String.toUTF8_eq_toByteArray, toByteArray_eq, Http.toList_toByteArray]

/-- The bytes of a string are UTF-8, and they are the string again. -/
theorem fromUTF8?_bytesOf (s : String) :
    String.fromUTF8? ⟨(bytesOf s.toList).toArray⟩ = some s := by
  have same : (⟨(bytesOf s.toList).toArray⟩ : ByteArray) = s.toByteArray := by
    rw [toByteArray_eq, ← List.data_toByteArray]
  rw [same, String.fromUTF8?, dif_pos s.isValidUTF8]
  rfl

/-! ## Bytes of strings -/

/-- A byte that stands for itself within a string. -/
def IsPlainByte (b : UInt8) : Prop := b ≠ byte '"' ∧ b ≠ byte '\\' ∧ ¬ b < 0x20

/-- A byte is plain unless it is a quote, a backslash or a control. -/
theorem isPlainByte_iff (b : UInt8) :
    IsPlainByte b ↔ b.toNat ≠ 34 ∧ b.toNat ≠ 92 ∧ 32 ≤ b.toNat := by
  rw [IsPlainByte, UInt8.lt_iff_toNat_lt, ne_eq, ne_eq, ← UInt8.toNat_inj, ← UInt8.toNat_inj]
  exact and_congr Iff.rfl (and_congr Iff.rfl Nat.not_lt)

/-- The bytes of a character past ASCII are all like this. -/
theorem isPlainByte_high (n : Nat) {k m : Nat} (filled : 0 < k) (high : 128 ≤ m)
    (fits : k + m ≤ 256) : IsPlainByte (UInt8.ofNat (n % k + m)) := by
  have low := Nat.mod_lt n filled
  rw [isPlainByte_iff, UInt8.toNat_ofNat', Nat.mod_eq_of_lt (by omega)]
  omega

/-- A character that needs no escape is encoded in plain bytes. -/
theorem isPlainByte_utf8EncodeChar {c : Char} (notQuote : c ≠ '"') (notBackslash : c ≠ '\\')
    (visible : ¬ c.toNat < 0x20) : ∀ b ∈ String.utf8EncodeChar c, IsPlainByte b := by
  have quote : c.toNat ≠ 34 := fun same => notQuote (Char.toNat_inj.mp same)
  have backslash : c.toNat ≠ 92 := fun same => notBackslash (Char.toNat_inj.mp same)
  have following (n : Nat) : IsPlainByte (UInt8.ofNat (n % 64 + 128)) :=
    isPlainByte_high n (by decide) (by decide) (by decide)
  rw [String.utf8EncodeChar]
  split
  · next ascii =>
    have code : c.val.toNat = c.toNat := rfl
    rw [List.forall_mem_singleton, isPlainByte_iff, UInt8.toNat_ofNat', code]
    omega
  split
  · simp only [List.forall_mem_cons]
    exact ⟨isPlainByte_high _ (by decide) (by decide) (by decide), following _, nofun⟩
  split
  · simp only [List.forall_mem_cons]
    exact ⟨isPlainByte_high _ (by decide) (by decide) (by decide), following _, following _,
      nofun⟩
  · simp only [List.forall_mem_cons]
    exact ⟨isPlainByte_high _ (by decide) (by decide) (by decide), following _, following _,
      following _, nofun⟩

/-! ## Reading -/

/-- Plain bytes are taken over one by one. -/
theorem stringBytes_plain {bs : List UInt8} (plain : ∀ b ∈ bs, IsPlainByte b) (rest : List UInt8)
    (steps : Nat) (done : List UInt8) :
    stringBytes (steps + bs.length) done (bs ++ rest) =
      stringBytes steps (bs.reverse ++ done) rest := by
  induction bs generalizing done with
  | nil => rfl
  | cons b bs ih =>
    obtain ⟨⟨notQuote, notBackslash, visible⟩, others⟩ := List.forall_mem_cons.mp plain
    rw [List.length_cons, ← Nat.add_assoc, List.cons_append, stringBytes, if_neg notQuote,
      if_neg notBackslash, if_neg visible, ih others, List.reverse_cons, List.append_assoc,
      List.singleton_append]

/-- An escape is taken over as what it stands for. -/
theorem stringBytes_escape {bs out rest : List UInt8}
    (undone : escape (bs ++ rest) = .ok (out, rest)) {steps : Nat} (done : List UInt8)
    (enough : (byte '\\' :: bs ++ rest).length ≤ steps) :
    ∃ left, rest.length ≤ left ∧ stringBytes steps done (byte '\\' :: bs ++ rest) =
      stringBytes left (out.reverse ++ done) rest := by
  cases steps with
  | zero => cases enough
  | succ left =>
    rw [List.cons_append, List.length_cons, List.length_append] at enough
    refine ⟨left, by omega, ?_⟩
    rw [List.cons_append, stringBytes, if_neg (by decide), if_pos rfl, undone]

/-- Every digit of base sixteen is read back. -/
theorem hexValue?_hexDigit_all : ∀ n < 16, hexValue? (byte (hexDigit n)) = some n := by decide

theorem hexDigit_ascii_all : ∀ n < 16, (hexDigit n).toNat < 128 := by decide

/-- An escaped control character is read back. -/
theorem escape_control {c : Char} (control : c.toNat < 0x20) (rest : List UInt8) :
    escape (byte 'u' :: byte '0' :: byte '0' :: byte (hexDigit (c.toNat / 16)) ::
      byte (hexDigit (c.toNat % 16)) :: rest) = .ok (String.utf8EncodeChar c, rest) := by
  have zero : hexValue? (byte '0') = some 0 := by decide
  have high := hexValue?_hexDigit_all (c.toNat / 16) (by omega)
  have low := hexValue?_hexDigit_all (c.toNat % 16) (by omega)
  have code : ((0 * 16 + 0) * 16 + c.toNat / 16) * 16 + c.toNat % 16 = c.toNat := by omega
  have read : codePoint (byte '0' :: byte '0' :: byte (hexDigit (c.toNat / 16)) ::
      byte (hexDigit (c.toNat % 16)) :: rest) = .ok (c.toNat, rest) := by
    have noTrailing : (0xDC00 ≤ c.toNat && c.toNat ≤ 0xDFFF) = false := by
      simp only [Bool.and_eq_false_iff, decide_eq_false_iff_not]
      omega
    have noLeading : (0xD800 ≤ c.toNat && c.toNat ≤ 0xDBFF) = false := by
      simp only [Bool.and_eq_false_iff, decide_eq_false_iff_not]
      omega
    simp only [codePoint, hexEscape, zero, high, low, code, noTrailing, noLeading, if_false,
      Bool.false_eq_true]
  rw [escape]
  simp only [read, Char.ofNat_toNat]
  rfl

/-- What is printed for a character is read as its bytes. -/
theorem stringBytes_escaped (c : Char) (rest : List UInt8) {steps : Nat} (done : List UInt8)
    (enough : (bytesOf (escaped c) ++ rest).length ≤ steps) :
    ∃ left, rest.length ≤ left ∧ stringBytes steps done (bytesOf (escaped c) ++ rest) =
      stringBytes left ((String.utf8EncodeChar c).reverse ++ done) rest := by
  by_cases special : c ∈ ['"', '\\', '\x08', '\x0c', '\n', '\r', '\t']
  · simp only [List.mem_cons, List.not_mem_nil, or_false] at special
    rcases special with rfl | rfl | rfl | rfl | rfl | rfl | rfl
    all_goals exact stringBytes_escape rfl done enough
  · simp only [List.mem_cons, List.not_mem_nil, or_false, not_or] at special
    obtain ⟨quote, backslash, backspace, formFeed, newline, carriageReturn, tab⟩ := special
    rw [escaped, if_neg quote, if_neg backslash, if_neg backspace, if_neg formFeed, if_neg newline,
      if_neg carriageReturn, if_neg tab] at enough ⊢
    by_cases control : c.toNat < 0x20
    · have high := hexDigit_ascii_all (c.toNat / 16) (by omega)
      have low := hexDigit_ascii_all (c.toNat % 16) (by omega)
      have printed : bytesOf
          ['\\', 'u', '0', '0', hexDigit (c.toNat / 16), hexDigit (c.toNat % 16)] =
          [byte '\\', byte 'u', byte '0', byte '0', byte (hexDigit (c.toNat / 16)),
            byte (hexDigit (c.toNat % 16))] := by
        simp only [bytesOf_cons_ascii high, bytesOf_cons_ascii low,
          bytesOf_cons_ascii (show '\\'.toNat < 128 by decide),
          bytesOf_cons_ascii (show 'u'.toNat < 128 by decide),
          bytesOf_cons_ascii (show '0'.toNat < 128 by decide)]
        rfl
      rw [if_pos control, printed] at enough ⊢
      exact stringBytes_escape (escape_control control rest) done enough
    · rw [if_neg control, bytesOf_cons, bytesOf, List.flatMap_nil, List.append_nil] at enough ⊢
      have plain := isPlainByte_utf8EncodeChar quote backslash control
      rw [List.length_append] at enough
      refine ⟨steps - (String.utf8EncodeChar c).length, by omega, ?_⟩
      rw [← stringBytes_plain plain, Nat.sub_add_cancel (by omega)]

/-- An escaped text is read back up to its closing quote. -/
theorem stringBytes_quoted (cs : List Char) (rest : List UInt8) {steps : Nat} (done : List UInt8)
    (enough : (bytesOf (cs.flatMap escaped) ++ byte '"' :: rest).length ≤ steps) :
    stringBytes steps done (bytesOf (cs.flatMap escaped) ++ byte '"' :: rest) =
      .ok (done.reverse ++ bytesOf cs, rest) := by
  induction cs generalizing steps done with
  | nil =>
    cases steps with
    | zero => cases enough
    | succ steps =>
      rw [List.flatMap_nil, bytesOf, List.flatMap_nil, List.nil_append, stringBytes, if_pos rfl,
        List.append_nil]
  | cons c cs ih =>
    rw [List.flatMap_cons, bytesOf_append, List.append_assoc] at enough ⊢
    obtain ⟨left, enough, read⟩ := stringBytes_escaped c _ done enough
    rw [read, ih _ enough, List.reverse_append, List.reverse_reverse, List.append_assoc,
      bytesOf_cons]

/-- A printed string is read back behind its opening quote. -/
theorem stringAfterQuote_quoted (s : String) (rest : List UInt8) :
    stringAfterQuote (bytesOf (s.toList.flatMap escaped) ++ byte '"' :: rest) = .ok (s, rest) := by
  rw [stringAfterQuote, stringBytes_quoted s.toList rest [] (Nat.le_refl _)]
  simp only [List.reverse_nil, List.nil_append, fromUTF8?_bytesOf]

end EndpointTree.Json
