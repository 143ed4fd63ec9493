import EndpointTree.Http.Headers
import EndpointTree.Text.Blank
import Mathlib.Data.List.Basic

/-!
# Plain text as a header value

The bytes of plain text are the codes of its characters, one each, and reading them as a
header value gives the text back. The only blanks in it are the space and the tab.

* `Http.plainText?_toUTF8`: a plain text survives as a header value.
* `Text.trim_eq_self`: a text that neither starts nor ends with a blank has none to lose.
-/

namespace EndpointTree

namespace Text

theorem dropWhile_eq_self {α : Type} {p : α → Bool} {items : List α}
    (starts : ∀ x ∈ items.head?, p x = false) : items.dropWhile p = items := by
  cases items with
  | nil => rfl
  | cons x rest => rw [List.dropWhile_cons_of_neg (Bool.eq_false_iff.mp (starts x rfl))]

/-- A text that neither starts nor ends with a blank is trimmed to itself. -/
theorem trim_eq_self {s : List Char} (starts : ∀ c ∈ s.head?, isBlank c = false)
    (ends : ∀ c ∈ s.getLast?, isBlank c = false) : trim s = s := by
  have ends : ∀ c ∈ s.reverse.head?, isBlank c = false := by
    rwa [List.head?_reverse]
  rw [trim, dropWhile_eq_self starts, dropWhile_eq_self ends, List.reverse_reverse]

end Text

namespace Http

/-- The bytes from a place on are put behind those that are done, which come in reverse. -/
theorem toList_loop_eq (bytes : ByteArray) (i : Nat) (done : List UInt8) :
    ByteArray.toList.loop bytes i done = done.reverse ++ bytes.data.toList.drop i := by
  fun_induction ByteArray.toList.loop bytes i done with
  | case1 i done inside ih =>
    have bound : i < bytes.data.toList.length := inside
    have here : bytes.get! i = bytes.data.toList[i] := getElem!_pos bytes.data i bound
    rw [ih, List.drop_eq_getElem_cons bound, here, List.reverse_cons, List.append_assoc]
    rfl
  | case2 i done outside =>
    have beyond : bytes.data.toList.length ≤ i := Nat.le_of_not_lt outside
    rw [List.drop_eq_nil_of_le beyond, List.append_nil]

/-- A list of bytes comes back from its array. -/
theorem toList_toByteArray (bytes : List UInt8) : bytes.toByteArray.toList = bytes := by
  rw [ByteArray.toList, toList_loop_eq, List.toList_data_toByteArray]
  rfl

/-- A visible ASCII character, a space or a tab. -/
def IsPlain (c : Char) : Prop := (32 ≤ c.toNat ∧ c.toNat < 127) ∨ c.toNat = 9

instance (c : Char) : Decidable (IsPlain c) := inferInstanceAs (Decidable (_ ∨ _))

namespace IsPlain

variable {c : Char}

theorem lt (plain : IsPlain c) : c.toNat < 128 := by
  rcases plain with ⟨_, high⟩ | tab <;> omega

theorem toNat_toByte (plain : IsPlain c) : (UInt8.ofNat c.toNat).toNat = c.toNat := by
  have := plain.lt
  rw [UInt8.toNat_ofNat']
  omega

/-- A plain character is a single byte, its own number. -/
theorem utf8EncodeChar (plain : IsPlain c) : String.utf8EncodeChar c = [UInt8.ofNat c.toNat] := by
  have small : c.val.toNat ≤ 127 := Nat.le_of_lt_succ plain.lt
  rw [String.utf8EncodeChar, if_pos small]
  rfl

/-- A plain character may stand in the value of a header field. -/
theorem isPlainByte (plain : IsPlain c) : isPlainByte (UInt8.ofNat c.toNat) = true := by
  rw [Http.isPlainByte]
  simp only [Bool.or_eq_true, Bool.and_eq_true, decide_eq_true_eq, UInt8.le_iff_toNat_le,
    UInt8.lt_iff_toNat_lt, ← UInt8.toNat_inj, plain.toNat_toByte]
  exact plain

/-- Of plain characters only the space and the tab are blank. -/
theorem isBlank_eq_false (plain : IsPlain c) (notSpace : c ≠ ' ') (notTab : c ≠ '\t') :
    Text.isBlank c = false := by
  have space : c.toNat ≠ 32 := fun same => notSpace (Char.toNat_inj.mp same)
  have tab : c.toNat ≠ 9 := fun same => notTab (Char.toNat_inj.mp same)
  rcases plain with ⟨low, high⟩ | isTab
  · simp only [Text.isBlank, Bool.or_eq_false_iff, Bool.and_eq_false_iff, decide_eq_false_iff_not]
    omega
  · exact absurd isTab tab

end IsPlain

/-- A plain text has one byte for each of its characters. -/
theorem toUTF8_ofList {chars : List Char} (plain : ∀ c ∈ chars, IsPlain c) :
    (String.ofList chars).toUTF8.toList = chars.map fun c => UInt8.ofNat c.toNat := by
  have encoded : chars.flatMap String.utf8EncodeChar =
      chars.map fun c => UInt8.ofNat c.toNat := by
    rw [List.map_eq_flatMap]
    exact List.flatMap_congr fun c member => (plain c member).utf8EncodeChar
  rw [String.toUTF8_eq_toByteArray, String.toByteArray_ofList, List.utf8Encode,
    toList_toByteArray, encoded]

/-- Plain text is read back from its bytes. -/
theorem plainText?_toUTF8 {text : String} (plain : ∀ c ∈ text.toList, IsPlain c) :
    plainText? text.toUTF8.toList = some text := by
  have bytes : text.toUTF8.toList = text.toList.map fun c => UInt8.ofNat c.toNat := by
    rw [← toUTF8_ofList plain, String.ofList_toList]
  have allPlain : text.toUTF8.toList.all isPlainByte = true := by
    rw [bytes, List.all_map, List.all_eq_true]
    exact fun c member => (plain c member).isPlainByte
  have back : text.toUTF8.toList.map (fun b => Char.ofNat b.toNat) = text.toList := by
    rw [bytes, List.map_map]
    have same : ∀ c ∈ text.toList, Char.ofNat (UInt8.ofNat c.toNat).toNat = c := by
      intro c member
      rw [(plain c member).toNat_toByte, Char.ofNat_toNat]
    exact (List.map_congr_left same).trans (List.map_id _)
  rw [plainText?, if_pos allPlain, back, String.ofList_toList]

end Http

end EndpointTree
