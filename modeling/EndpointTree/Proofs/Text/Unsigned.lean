import EndpointTree.Text.Unsigned

/-!
# Unsigned numbers there and back

The decimal digits of a number spell it, with no sign in front, so every number below the limit
is read back from its own text.

* `Text.unsigned?_repr`: the text of a number below the limit is read as that number.
* `Text.lt_of_unsigned?`: nothing is read that is not below the limit.
-/

namespace EndpointTree.Text

theorem digitValue?_digit {c : Char} (digit : c.isDigit = true) :
    digitValue? c = some (c.toNat - '0'.toNat) := by
  rw [Char.isDigit, Bool.and_eq_true, decide_eq_true_eq, decide_eq_true_eq] at digit
  exact if_pos digit

/-- Digits have the value that they have as a numeral of base ten. -/
theorem digitsValue?_digits {cs : List Char} (digits : ∀ c ∈ cs, c.isDigit = true) :
    digitsValue? cs = some (Nat.ofDigitChars 10 cs 0) := by
  rw [digitsValue?]
  generalize 0 = n
  induction cs generalizing n with
  | nil => rfl
  | cons c cs ih =>
    obtain ⟨digit, others⟩ := List.forall_mem_cons.mp digits
    have next : (do return (← some n) * 10 + (← digitValue? c) : Option Nat) =
        some (10 * n + (c.toNat - '0'.toNat)) := by
      rw [digitValue?_digit digit, Nat.mul_comm 10]
      rfl
    rw [List.foldl_cons, next, ih others, Nat.ofDigitChars_cons]

/-- A number below the limit is read back from how it is written. -/
theorem unsigned?_repr {limit n : Nat} (below : n < limit) :
    unsigned? limit (Nat.repr n) = some n := by
  have digits : ∀ c ∈ Nat.toDigits 10 n, c.isDigit = true := fun c member =>
    Nat.isDigit_of_mem_toDigits (by decide) (by decide) member
  have noSign (rest : List Char) : Nat.toDigits 10 n ≠ '+' :: rest := by
    intro written
    exact absurd (digits '+' (written ▸ List.mem_cons_self)) (by decide)
  rw [unsigned?, Nat.toList_repr]
  split
  · next rest written => exact absurd written (noSign rest)
  · rw [if_neg (by simp [Nat.toDigits_ne_nil]), digitsValue?_digits digits,
      Nat.ofDigitChars_ten_toDigits, Option.bind_some, if_pos below]

/-- No number from the limit on is read. -/
theorem lt_of_unsigned? {limit n : Nat} {s : String} (read : unsigned? limit s = some n) :
    n < limit := by
  unfold unsigned? at read
  extract_lets digits at read
  split at read
  · cases read
  · obtain ⟨m, -, small⟩ := Option.bind_eq_some_iff.mp read
    obtain ⟨below, same⟩ := Option.ite_none_right_eq_some.mp small
    exact Option.some.inj same ▸ below

end EndpointTree.Text
