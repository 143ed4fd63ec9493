import EndpointTree.Json.Binary64

/-!
# Numbers of a document

A number is either an integer of the 64-bit ranges or a finite double. A
decimal, as it is read from text, is a significand and a power of ten; turning
it into a double rounds the significand first and then scales it by rounded
powers of ten, so the result can differ from the nearest double in the last
digit.
-/

namespace EndpointTree

/-- The least integer that is kept as one, -2^63. -/
abbrev leastInteger : Int := -9223372036854775808

/-- The first integer past those that are kept, 2^64. -/
abbrev integerLimit : Int := 18446744073709551616

/-- An integer from -2^63 up to 2^64 - 1, or a finite double. -/
inductive Number where
  | integer (value : Int) (inRange : leastInteger ≤ value ∧ value < integerLimit)
  | real (value : Binary64)
  deriving DecidableEq

namespace Number

/-- The integer itself where it is in range, else the nearest double. -/
def ofInt (value : Int) : Number :=
  if h : leastInteger ≤ value ∧ value < integerLimit then .integer value h
  else .real ((Binary64.ofNat (value < 0) value.natAbs).getD (.zero false))

/-- The value of an integer. -/
def integer? : Number → Option Int
  | .integer value _ => some value
  | .real _ => none

/-- The text of a number: plain digits for an integer, the double's text otherwise. -/
def text : Number → String
  | .integer value _ => if value < 0 then "-" ++ Nat.repr value.natAbs else Nat.repr value.natAbs
  | .real value => value.text

end Number

/-- `significand * 10 ^ exponent`, with a sign that zero keeps. -/
structure Decimal where
  negative : Bool
  significand : Nat
  exponent : Int
  deriving DecidableEq, Repr

namespace Decimal

/-- The largest power of ten that a double reaches. -/
def maxPower : Nat := 308

/--
Scale a double by a power of ten. A power beyond `maxPower` has no double of its
own: a value other than zero is out of range above and divided in steps below.
-/
def scale (x : Binary64) (exponent : Int) : Option Binary64 :=
  if 0 ≤ exponent then
    if exponent ≤ maxPower then x.scaleUp (.tenTo exponent.toNat)
    else if x.isZero then some x
    else none
  else if -maxPower ≤ exponent then x.scaleDown (.tenTo (-exponent).toNat)
  else if x.isZero then some x
  else do scale (← x.scaleDown (.tenTo maxPower)) (exponent + maxPower)
termination_by (-exponent).toNat
decreasing_by simp only [maxPower] at *; omega

/-- The double of a decimal, none where it is too large. -/
def toBinary64? (x : Decimal) : Option Binary64 :=
  (Binary64.ofNat x.negative x.significand).bind fun s => scale s x.exponent

end Decimal

end EndpointTree
