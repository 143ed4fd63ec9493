import EndpointTree.Json.Value
import EndpointTree.Text.Unsigned

/-!
# Plain scalars

A scalar that is written without quotes stands for `null`, a flag, a number or a
text, whichever its spelling is. Whole numbers may be written with a sign and in
base 16, 8 or 2; digits behind a leading zero are a text. Whole numbers outside
the 64-bit ranges have no value in a document.
-/

namespace EndpointTree.Yaml

/-- What a plain scalar stands for. -/
inductive Resolved where
  | value (v : Json)
  /-- A whole number that is too large for a document. -/
  | tooLarge

def digitIn? (base : Nat) (c : Char) : Option Nat :=
  let n := c.toNat
  let value :=
    if 48 ≤ n ∧ n ≤ 57 then some (n - 48)
    else if 97 ≤ n ∧ n ≤ 102 then some (n - 87)
    else if 65 ≤ n ∧ n ≤ 70 then some (n - 55)
    else none
  value.bind fun v => if v < base then some v else none

/-- The value of filled digits in a base. -/
def naturalIn? (base : Nat) (digits : List Char) : Option Nat :=
  if digits.isEmpty then none
  else digits.foldl (fun acc c => do return (← acc) * base + (← digitIn? base c)) (some 0)

/-- A magnitude behind its sign: a base mark with digits, or decimal digits. -/
def magnitude? : List Char → Option Nat
  | '0' :: 'x' :: digits => naturalIn? 16 digits
  | '0' :: 'o' :: digits => naturalIn? 8 digits
  | '0' :: 'b' :: digits => naturalIn? 2 digits
  | digits => naturalIn? 10 digits

/-- A sign that may stand in front, and the rest. -/
def splitSign : List Char → Option Char × List Char
  | '+' :: rest => (some '+', rest)
  | '-' :: rest => (some '-', rest)
  | rest => (none, rest)

/-- Whether a text is digits behind a leading zero. -/
def isPaddedDigits (s : List Char) : Bool :=
  match (splitSign s).2 with
  | '0' :: c :: rest => (c :: rest).all fun d => (digitIn? 10 d).isSome
  | _ => false

/-- The whole number that a text spells. -/
def wholeNumber? (s : List Char) : Option Int :=
  if isPaddedDigits s then none
  else match splitSign s with
    | (some '-', rest) => (magnitude? rest).map fun n => -(n : Int)
    | (_, rest) => (magnitude? rest).map fun n => (n : Int)

/-- Digits from the front of a text, and the rest. -/
def takeDigits (s : List Char) : List Char × List Char :=
  let isDigit (c : Char) : Bool := (digitIn? 10 c).isSome
  (s.takeWhile isDigit, s.dropWhile isDigit)

/-- The exponent that ends a decimal, zero where there is none. -/
def exponent? : List Char → Option Int
  | [] => some 0
  | c :: rest =>
    if c = 'e' ∨ c = 'E' then
      let (sign, digits) := splitSign rest
      (naturalIn? 10 digits).map fun n => if sign = some '-' then -(n : Int) else n
    else none

/-- The largest power of ten that is worked out; what lies past it is zero or too large. -/
def powerLimit : Int := 100000

/-- The double nearest to a decimal text; one that is not finite has none. -/
def decimal? (s : List Char) : Option Binary64 :=
  let (sign, rest) := splitSign s
  let (whole, rest) := takeDigits rest
  let (fraction, rest) := match rest with
    | '.' :: rest => takeDigits rest
    | _ => ([], rest)
  if whole.isEmpty ∧ fraction.isEmpty then none
  else do
    let exponent ← exponent? rest
    let significand ← naturalIn? 10 (whole ++ fraction)
    let power := exponent - fraction.length
    let negative := sign = some '-'
    if significand = 0 ∨ power < -powerLimit then some (Binary64.zero negative)
    else if powerLimit < power then none
    else
      Binary64.ofRatio negative (significand * Nat.pow 10 power.toNat) (Nat.pow 10 (-power).toNat)

/-- The spellings of the numbers that are not finite. -/
def notFinite : List String :=
  [".inf", ".Inf", ".INF", "+.inf", "+.Inf", "+.INF", "-.inf", "-.Inf", "-.INF",
   ".nan", ".NaN", ".NAN"]

/-- The least 128-bit integer, -2^127. -/
abbrev leastWide : Int := -170141183460469231731687303715884105728

/-- The first integer past the 128-bit ones, 2^128. -/
abbrev wideLimit : Int := 340282366920938463463374607431768211456

/-- Whether a text is a spelling of `null`. -/
def isNull (s : String) : Bool := ["null", "Null", "NULL", "~"].contains s

/-- What a plain scalar stands for; a number that is not finite becomes `null`. -/
def resolve (s : String) : Resolved :=
  let cs := s.toList
  if s = "" ∨ isNull s then .value .null
  else if ["true", "True", "TRUE"].contains s then .value (.bool true)
  else if ["false", "False", "FALSE"].contains s then .value (.bool false)
  else match wholeNumber? cs with
    | some n =>
      if h : leastInteger ≤ n ∧ n < integerLimit then .value (.number (.integer n h))
      else if leastWide ≤ n ∧ n < wideLimit then .tooLarge
      else match decimal? cs with
        | some x => .value (.number (.real x))
        | none => .value (.string s)
    | none =>
      if isPaddedDigits cs then .value (.string s)
      else if notFinite.contains s then .value .null
      else match decimal? cs with
        | some x => .value (.number (.real x))
        | none => .value (.string s)

end EndpointTree.Yaml
