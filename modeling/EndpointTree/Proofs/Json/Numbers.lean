import EndpointTree.Proofs.Json.Strings
import Mathlib.Tactic.IntervalCases

/-!
# Integers of a document there and back

An integer is printed with its decimal digits, none of them a leading zero, and a sign if it is
negative. The reader takes the digits into a significand, which stays below its limit for every
integer that a document can hold, and stops at what comes behind: a comma, a bracket, a brace
or nothing.

* `Json.EndsNumber` is what may stand behind a number.
* `Json.unsignedNumber_digits`: the digits of a number are read back.
-/

namespace EndpointTree.Json

/-- What stands behind a number and belongs to it no more. -/
def EndsNumber (rest : List UInt8) : Prop :=
  ∀ b ∈ rest.head?, isDigitByte b = false ∧ b ≠ byte '.' ∧ b ≠ byte 'e' ∧ b ≠ byte 'E'

theorem endsNumber_nil : EndsNumber [] := nofun

theorem endsNumber_cons {c : Char} (mark : c ∈ [',', ']', '}']) (rest : List UInt8) :
    EndsNumber (byte c :: rest) := by
  intro b first
  obtain rfl := Option.some.inj first
  simp only [List.mem_cons, List.not_mem_nil, or_false] at mark
  rcases mark with rfl | rfl | rfl <;> decide

/-! ## Digits -/

theorem digit_bounds {c : Char} (digit : c.isDigit = true) : 48 ≤ c.toNat ∧ c.toNat ≤ 57 := by
  rw [Char.isDigit, Bool.and_eq_true, decide_eq_true_eq, decide_eq_true_eq] at digit
  exact digit

/-- A character of ASCII is one byte, its own number. -/
theorem toNat_byte {c : Char} (ascii : c.toNat < 128) : (byte c).toNat = c.toNat := by
  rw [byte, Nat.toUInt8, UInt8.toNat_ofNat', Nat.mod_eq_of_lt (by omega)]

theorem isDigitByte_byte {c : Char} (digit : c.isDigit = true) : isDigitByte (byte c) = true := by
  have bounds := digit_bounds digit
  have code := toNat_byte (c := c) (by omega)
  rw [isDigitByte, Bool.and_eq_true, decide_eq_true_eq, decide_eq_true_eq, UInt8.le_iff_toNat_le,
    UInt8.le_iff_toNat_le, code]
  exact bounds

theorem digitValue_byte {c : Char} (digit : c.isDigit = true) :
    digitValue (byte c) = c.toNat - '0'.toNat := by
  have bounds := digit_bounds digit
  rw [digitValue, toNat_byte (by omega)]
  rfl

theorem bytesOf_digits {c : Char} (digit : c.isDigit = true) (cs : List Char) :
    bytesOf (c :: cs) = byte c :: bytesOf cs :=
  bytesOf_cons_ascii (by have := digit_bounds digit; omega) cs

/-- No number but zero starts with a zero. -/
theorem head_toDigits_ne_zero {n : Nat} (pos : 0 < n) :
    ∀ c ∈ (Nat.toDigits 10 n).head?, c ≠ '0' := by
  induction n using Nat.strongRecOn with
  | ind n ih =>
    by_cases small : n < 10
    · rw [Nat.toDigits_of_lt_base small]
      intro c first
      obtain rfl := Option.some.inj first
      interval_cases n <;> decide
    · rw [Nat.toDigits_of_base_le (by decide) (by omega),
        List.head?_append_of_ne_nil _ Nat.toDigits_ne_nil]
      exact ih (n / 10) (by omega) (by omega)

/-- Further digits never make a number smaller. -/
theorem le_ofDigitChars (cs : List Char) (n : Nat) : n ≤ Nat.ofDigitChars 10 cs n := by
  rw [Nat.ofDigitChars_eq_ofDigitChars_zero]
  have : n ≤ 10 ^ cs.length * n := Nat.le_mul_of_pos_left n (Nat.pow_pos (by decide))
  omega

/-! ## Reading -/

/-- All digits go into the significand if what they make stays below its limit. -/
theorem absorb_digits {cs : List Char} (digits : ∀ c ∈ cs, c.isDigit = true) {n : Nat}
    (fits : Nat.ofDigitChars 10 cs n < significandLimit) {rest : List UInt8}
    (ends : EndsNumber rest) :
    absorb n (bytesOf cs ++ rest) = (Nat.ofDigitChars 10 cs n, cs.length, rest) := by
  induction cs generalizing n with
  | nil =>
    cases rest with
    | nil => rfl
    | cons b rest =>
      have stop : isDigitByte b = false := (ends b rfl).1
      show absorb n (b :: rest) = _
      rw [absorb, stop]
      rfl
  | cons c cs ih =>
    obtain ⟨digit, others⟩ := List.forall_mem_cons.mp digits
    rw [Nat.ofDigitChars_cons] at fits ⊢
    have taken := le_ofDigitChars cs (10 * n + (c.toNat - '0'.toNat))
    have next : n * 10 + digitValue (byte c) = 10 * n + (c.toNat - '0'.toNat) := by
      rw [digitValue_byte digit, Nat.mul_comm]
    rw [bytesOf_digits digit, List.cons_append, absorb, next, isDigitByte_byte digit,
      decide_eq_true (Nat.lt_of_le_of_lt taken fits), ih others fits]
    rfl

/-- Without a fraction or an exponent, a number is whole. -/
theorem numberTail_ends {rest : List UInt8} (ends : EndsNumber rest) (negative : Bool)
    (significand : Nat) :
    numberTail negative significand 0 rest = .ok (wholeNumber negative significand, rest) := by
  cases rest with
  | nil => rfl
  | cons b rest =>
    obtain ⟨-, notPoint, notLower, notUpper⟩ := ends b rfl
    simp [numberTail, notPoint, notLower, notUpper]

/-- The digits of a number are read back as that number. -/
theorem unsignedNumber_digits {n : Nat} (fits : n < significandLimit) {rest : List UInt8}
    (ends : EndsNumber rest) (negative : Bool) :
    unsignedNumber negative (bytesOf (Nat.toDigits 10 n) ++ rest) =
      .ok (wholeNumber negative n, rest) := by
  have noDigits : rest.takeWhile isDigitByte = [] ∧ rest.dropWhile isDigitByte = rest := by
    cases rest with
    | nil => exact ⟨rfl, rfl⟩
    | cons b rest => simp [(ends b rfl).1]
  have digits : ∀ c ∈ Nat.toDigits 10 n, c.isDigit = true := fun c member =>
    Nat.isDigit_of_mem_toDigits (by decide) (by decide) member
  have makes : Nat.ofDigitChars 10 (Nat.toDigits 10 n) 0 = n := Nat.ofDigitChars_ten_toDigits
  rcases Nat.eq_zero_or_pos n with rfl | pos
  · rw [Nat.toDigits_zero, bytesOf_digits (by decide), bytesOf, List.flatMap_nil,
      List.singleton_append]
    unfold unsignedNumber
    dsimp only
    rw [if_pos rfl]
    cases rest with
    | nil => rfl
    | cons b rest =>
      simp only [(ends b rfl).1, Bool.false_eq_true, if_false]
      exact numberTail_ends ends negative 0
  · have noZero := head_toDigits_ne_zero pos
    cases written : Nat.toDigits 10 n with
    | nil => exact absurd written Nat.toDigits_ne_nil
    | cons c cs =>
      rw [written] at digits makes noZero
      obtain ⟨digit, others⟩ := List.forall_mem_cons.mp digits
      have first : byte c ≠ byte '0' := by
        have code := toNat_byte (c := c) (by have := digit_bounds digit; omega)
        intro same
        rw [same] at code
        exact noZero c rfl (Char.toNat_inj.mp code.symm)
      rw [Nat.ofDigitChars_cons, Nat.mul_zero, Nat.zero_add, ← digitValue_byte digit] at makes
      rw [bytesOf_digits digit, List.cons_append]
      unfold unsignedNumber
      dsimp only
      rw [if_neg first, if_pos (isDigitByte_byte digit),
        absorb_digits others (makes.symm ▸ fits) ends, makes]
      simp only [noDigits]
      exact numberTail_ends ends negative n

/-! ## Integers -/

/-- The text of an integer has its digits, behind a sign if it is negative. -/
theorem text_integer (value : Int) (inRange) :
    (Number.integer value inRange).text.toList =
      if value < 0 then '-' :: Nat.toDigits 10 value.natAbs else Nat.toDigits 10 value.natAbs := by
  rw [Number.text, Nat.repr_eq_ofList_toDigits]
  split
  · rw [String.toList_append, String.toList_ofList, String.toList_ofList]
    rfl
  · rw [String.toList_ofList]

/-- The digits and the sign of an integer make that integer. -/
theorem wholeNumber_natAbs (value : Int) (inRange) :
    wholeNumber (value < 0) value.natAbs = .integer value inRange := by
  rw [wholeNumber]
  by_cases negative : value < 0
  · have notZero : value.natAbs ≠ 0 := by omega
    have same : -(value.natAbs : Int) = value := by omega
    rw [decide_eq_true negative, if_pos rfl, if_neg notZero, same, Number.ofInt, dif_pos inRange]
  · have same : (value.natAbs : Int) = value := by omega
    rw [decide_eq_false negative, if_neg Bool.false_ne_true, same, Number.ofInt, dif_pos inRange]

end EndpointTree.Json
