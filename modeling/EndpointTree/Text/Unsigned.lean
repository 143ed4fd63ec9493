/-!
# Unsigned numbers in text

Decimal digits, at least one, behind an optional plus sign, with a value below a
limit. There are no blanks, no separators and no minus sign.
-/

namespace EndpointTree.Text

/-- How many values a 16-bit count has. -/
abbrev count16 : Nat := 65536

/-- How many values a 64-bit count has, 2^64. -/
abbrev count64 : Nat := 18446744073709551616

/-- The value of a decimal digit. -/
def digitValue? (c : Char) : Option Nat :=
  if '0' ≤ c ∧ c ≤ '9' then some (c.toNat - 48) else none

/-- The value of decimal digits, of which no digit at all is zero. -/
def digitsValue? : List Char → Option Nat
  | cs => cs.foldl (fun acc c => do return (← acc) * 10 + (← digitValue? c)) (some 0)

/-- The number that a text spells, if it is below the limit. -/
def unsigned? (limit : Nat) (s : String) : Option Nat :=
  let digits := match s.toList with
    | '+' :: rest => rest
    | cs => cs
  if digits.isEmpty then none
  else (digitsValue? digits).bind fun n => if n < limit then some n else none

end EndpointTree.Text
