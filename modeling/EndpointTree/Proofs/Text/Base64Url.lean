import EndpointTree.Text.Base64Url
import Mathlib.Tactic.Common

/-!
# Base64 there and back

Every digit stands for the number that it was made of, so the characters of a group give
back its bytes, and a text of groups gives back all of them. No other text is decoded: bytes
have one text only.

* `Text.Base64Url.decode?_encode`: decoding gives back what was encoded.
* `Text.Base64Url.dot_notMem_encode`: no dot occurs in what was encoded.
* `Text.Base64Url.decode?_eq_some_iff`: only what was encoded is decoded.
-/

namespace EndpointTree.Text.Base64Url

/-- Every digit has the value that it is the digit of. -/
theorem value?_digit_all : ∀ n < 64, value? (digit n) = some n := by decide

variable (a b c : UInt8)

/-! ## The four digits of a group -/

theorem value?_first : value? (digit (a.toNat / 4)) = some (a.toNat / 4) :=
  value?_digit_all _ (by have := a.toNat_lt; omega)

/-- The second digit holds the end of the first byte and the start of the second one. -/
theorem value?_second : value? (digit (a.toNat % 4 * 16 + b.toNat / 16)) =
    some (a.toNat % 4 * 16 + b.toNat / 16) :=
  value?_digit_all _ (by have := b.toNat_lt; omega)

/-- The third digit holds the end of the second byte and the start of the third one. -/
theorem value?_third : value? (digit (b.toNat % 16 * 4 + c.toNat / 64)) =
    some (b.toNat % 16 * 4 + c.toNat / 64) :=
  value?_digit_all _ (by have := c.toNat_lt; omega)

theorem value?_fourth : value? (digit (c.toNat % 64)) = some (c.toNat % 64) :=
  value?_digit_all _ (Nat.mod_lt _ (by decide))

/-! ## The three bytes of a group -/

theorem toUInt8_eq {n : Nat} (same : n = a.toNat) : n.toUInt8 = a := by
  rw [same]
  exact UInt8.ofNat_toNat

/-- The first two digits make the first byte, whatever follows its last two bits. -/
theorem first_byte {high : Nat} (small : high < 16) :
    (a.toNat / 4 * 4 + (a.toNat % 4 * 16 + high) / 16).toUInt8 = a :=
  toUInt8_eq a (by omega)

/-- The second byte is made of the digits in the middle, whatever stands around its bits. -/
theorem second_byte (low : Nat) {high : Nat} (small : high < 4) :
    ((low * 16 + b.toNat / 16) % 16 * 16 + (b.toNat % 16 * 4 + high) / 4).toUInt8 = b := by
  have bound := b.toNat_lt
  exact toUInt8_eq b (by omega)

/-- The last two digits make the third byte, whatever stands before its first two bits. -/
theorem third_byte (low : Nat) :
    ((low * 4 + c.toNat / 64) % 4 * 64 + c.toNat % 64).toUInt8 = c := by
  have bound := c.toNat_lt
  exact toUInt8_eq c (by omega)

/-! ## Texts -/

/-- What was encoded is decoded to the same bytes, with or without a full last group. -/
theorem decode?_encode (bs : List UInt8) : decode? (encode bs) = some bs := by
  fun_induction encode bs with
  | case1 => rfl
  | case2 a =>
    have second : value? (digit (a.toNat % 4 * 16)) = some (a.toNat % 4 * 16) :=
      value?_second a 0
    have unused : a.toNat % 4 * 16 % 16 = 0 := Nat.mul_mod_left ..
    have byte : (a.toNat / 4 * 4 + a.toNat % 4 * 16 / 16).toUInt8 = a :=
      first_byte a (show 0 < 16 by decide)
    simp only [decode?, value?_first, second, Option.bind_eq_bind, Option.bind_some, if_pos unused,
      byte]
  | case3 a b =>
    have third : value? (digit (b.toNat % 16 * 4)) = some (b.toNat % 16 * 4) :=
      value?_third b 0
    have unused : b.toNat % 16 * 4 % 4 = 0 := Nat.mul_mod_left ..
    have high : b.toNat / 16 < 16 := Nat.div_lt_of_lt_mul b.toNat_lt
    have byte : ((a.toNat % 4 * 16 + b.toNat / 16) % 16 * 16 + b.toNat % 16 * 4 / 4).toUInt8 = b :=
      second_byte b _ (show 0 < 4 by decide)
    simp only [decode?, value?_first, value?_second, third, Option.bind_eq_bind, Option.bind_some,
      if_pos unused, first_byte a high, byte]
  | case4 a b c rest ih =>
    have high : b.toNat / 16 < 16 := Nat.div_lt_of_lt_mul b.toNat_lt
    have high' : c.toNat / 64 < 4 := Nat.div_lt_of_lt_mul c.toNat_lt
    simp only [decode?, value?_first, value?_second, value?_third, value?_fourth, ih,
      Option.bind_eq_bind, Option.bind_some, first_byte a high, second_byte b _ high', third_byte]

/-- The dot stands for no number. -/
theorem dot_ne {d : Char} {n : Nat} (stands : value? d = some n) : '.' ≠ d := by
  rintro rfl
  cases stands

/-- No dot is a digit, so a dot can part one encoded text from the next. -/
theorem dot_notMem_encode (bs : List UInt8) : '.' ∉ encode bs := by
  fun_induction encode bs with
  | case1 => exact List.not_mem_nil
  | case2 a =>
    simpa only [List.mem_cons, List.not_mem_nil, or_false, not_or] using
      ⟨dot_ne (value?_first a), dot_ne (value?_second a 0)⟩
  | case3 a b =>
    simpa only [List.mem_cons, List.not_mem_nil, or_false, not_or] using
      ⟨dot_ne (value?_first a), dot_ne (value?_second a b), dot_ne (value?_third b 0)⟩
  | case4 a b c rest ih =>
    simpa only [List.mem_cons, not_or] using
      ⟨dot_ne (value?_first a), dot_ne (value?_second a b), dot_ne (value?_third b c),
        dot_ne (value?_fourth c), ih⟩

theorem encode_injective {bs bs' : List UInt8} (same : encode bs = encode bs') : bs = bs' :=
  Option.some.inj ((decode?_encode bs).symm.trans (same ▸ decode?_encode bs'))

/-! ## Texts back from their bytes -/

/-- A character that stands for a number is the digit of that number. -/
theorem digit_of_value? {c : Char} {n : Nat} (stands : value? c = some n) :
    digit n = c ∧ n < 64 := by
  have same {k : Nat} (code : k = c.toNat) : Char.ofNat k = c := by
    rw [code, Char.ofNat_toNat]
  rw [value?] at stands
  rw [digit]
  split at stands
  · cases stands
    exact ⟨by rw [if_pos (by omega)]; exact same (by omega), by omega⟩
  · split at stands
    · cases stands
      exact ⟨by rw [if_neg (by omega), if_pos (by omega)]; exact same (by omega), by omega⟩
    · split at stands
      · cases stands
        refine ⟨?_, by omega⟩
        rw [if_neg (by omega), if_neg (by omega), if_pos (by omega)]
        exact same (by omega)
      · split at stands
        · next minus =>
          cases stands
          exact ⟨minus.symm, by decide⟩
        · split at stands
          · next low =>
            cases stands
            exact ⟨low.symm, by decide⟩
          · cases stands

theorem toNat_toUInt8 {n : Nat} (small : n < 256) : n.toUInt8.toNat = n := by
  rw [Nat.toUInt8, UInt8.toNat_ofNat', Nat.mod_eq_of_lt small]

/-- A text that can be decoded is the one that its bytes are encoded to. -/
theorem encode_of_decode? {cs : List Char} {bs : List UInt8} (decoded : decode? cs = some bs) :
    encode bs = cs := by
  fun_induction decode? cs generalizing bs with
  | case1 =>
    cases decoded
    rfl
  | case2 => cases decoded
  | case3 c d =>
    simp only [Option.bind_eq_bind, Option.bind_eq_some_iff] at decoded
    obtain ⟨x, first, y, second, decoded⟩ := decoded
    split at decoded
    · next unused =>
      cases decoded
      obtain ⟨rfl, xs⟩ := digit_of_value? first
      obtain ⟨rfl, ys⟩ := digit_of_value? second
      rw [encode, toNat_toUInt8 (by omega)]
      congr <;> omega
    · cases decoded
  | case4 c d e =>
    simp only [Option.bind_eq_bind, Option.bind_eq_some_iff] at decoded
    obtain ⟨x, first, y, second, z, third, decoded⟩ := decoded
    split at decoded
    · next unused =>
      cases decoded
      obtain ⟨rfl, xs⟩ := digit_of_value? first
      obtain ⟨rfl, ys⟩ := digit_of_value? second
      obtain ⟨rfl, zs⟩ := digit_of_value? third
      rw [encode, toNat_toUInt8 (by omega), toNat_toUInt8 (by omega)]
      congr <;> omega
    · cases decoded
  | case5 c d e f rest ih =>
    simp only [Option.bind_eq_bind, Option.bind_eq_some_iff] at decoded
    obtain ⟨x, first, y, second, z, third, w, fourth, more, further, decoded⟩ := decoded
    cases decoded
    obtain ⟨rfl, xs⟩ := digit_of_value? first
    obtain ⟨rfl, ys⟩ := digit_of_value? second
    obtain ⟨rfl, zs⟩ := digit_of_value? third
    obtain ⟨rfl, ws⟩ := digit_of_value? fourth
    rw [encode, toNat_toUInt8 (by omega), toNat_toUInt8 (by omega), toNat_toUInt8 (by omega),
      ih further]
    congr <;> omega

/-- Only what encoding produces is decoded. -/
theorem decode?_eq_some_iff {cs : List Char} {bs : List UInt8} :
    decode? cs = some bs ↔ cs = encode bs := by
  constructor
  · intro decoded
    exact (encode_of_decode? decoded).symm
  · rintro rfl
    exact decode?_encode bs

end EndpointTree.Text.Base64Url
