/-!
# Finite doubles in exact arithmetic

A `Binary64` is the sign and the position of a finite double among the doubles
of its sign, counted up from zero. The position determines the significand and
the exponent, so two values are equal exactly when they are the same double,
and every operation below is rational arithmetic followed by one rounding.

* `Binary64.ofRatio` rounds a quotient to the nearest double, a tie to the even
  significand.
* `Binary64.shortest` gives the fewest decimal digits that round back.
-/

namespace EndpointTree

/-- Divide and round to the nearest integer, a tie to the even one. -/
def roundedQuotient (num den : Nat) : Nat :=
  let q := num / den
  let r := num % den
  if 2 * r < den then q
  else if den < 2 * r then q + 1
  else q + q % 2

/-- How many significands share one exponent, which is 2^52. -/
abbrev binade : Nat := 4503599627370496

/-- A finite double: its sign and its rank among the doubles of that sign. -/
structure Binary64 where
  negative : Bool
  rank : Fin (2047 * binade)
  deriving DecidableEq, Repr

namespace Binary64

/-- Zero with the given sign. -/
def zero (negative : Bool) : Binary64 := ⟨negative, 0, by decide⟩

/-- Whether the value is one of the two zeros. -/
def isZero (x : Binary64) : Bool := x.rank.val = 0

/-- The significand, below 2^53. -/
def significand (x : Binary64) : Nat :=
  if x.rank.val < binade then x.rank.val else binade + x.rank.val % binade

/-- How far the exponent stands above the least one, which is `-1074`. -/
def step (x : Binary64) : Nat := x.rank.val / binade - 1

/-- The numerator and denominator of the magnitude. -/
def ratio (x : Binary64) : Nat × Nat :=
  if 1074 ≤ x.step then (x.significand * Nat.pow 2 (x.step - 1074), 1)
  else (x.significand, Nat.pow 2 (1074 - x.step))

/-- Round `num / den` to the nearest double; a magnitude past the last double has none. -/
def ofRatio (negative : Bool) (num den : Nat) : Option Binary64 :=
  if num = 0 then some (zero negative)
  else
    let scaled := num * Nat.pow 2 1074
    let guess := scaled.log2 - den.log2 - 53
    let step := if scaled / (den * Nat.pow 2 guess) < 2 * binade then guess else guess + 1
    let rank := step * binade + roundedQuotient scaled (den * Nat.pow 2 step)
    if h : rank < 2047 * binade then some ⟨negative, rank, h⟩ else none

/-- The nearest double to a natural number. -/
def ofNat (negative : Bool) (n : Nat) : Option Binary64 := ofRatio negative n 1

/-- The rounded product; the sign is that of the first factor. -/
def scaleUp (x factor : Binary64) : Option Binary64 :=
  let (n, d) := x.ratio
  let (n', d') := factor.ratio
  ofRatio x.negative (n * n') (d * d')

/-- The rounded quotient; the sign is that of the dividend. -/
def scaleDown (x divisor : Binary64) : Option Binary64 :=
  let (n, d) := x.ratio
  let (n', d') := divisor.ratio
  ofRatio x.negative (n * d') (d * n')

/-- The double nearest to a power of ten, and zero where there is none. -/
def tenTo (exponent : Nat) : Binary64 := (ofNat false (Nat.pow 10 exponent)).getD (zero false)

/-! ## Decimal text -/

/--
The multiples of 10^k that round to `x`, nearest first: at most the two
neighbours of `x` on that grid. The bounds of the rounding interval count as
inside exactly when the significand is even.
-/
def onGrid? (x : Binary64) (k : Int) : Option Nat :=
  let (n, d) := x.ratio
  let num := n * Nat.pow 10 (-k).toNat
  let den := d * Nat.pow 10 k.toNat
  let unit := x.step
  -- Everything is compared in quarters of the distance to the next double.
  let (gapNum, gapDen) :=
    if 1074 ≤ unit then (Nat.pow 2 (unit - 1074), 1) else (1, Nat.pow 2 (1074 - unit))
  let gap := gapNum * Nat.pow 10 (-k).toNat * d
  let lowQuarters := if x.significand = binade ∧ 0 < unit then 1 else 2
  let closed := x.significand % 2 = 0
  -- The candidate `c` stands for `c * den / num` times the value.
  let inside (c : Nat) : Bool :=
    let lhs := 4 * c * den * gapDen
    let mid := 4 * num * gapDen
    let low := mid - lowQuarters * gap
    let high := mid + 2 * gap
    if closed then low ≤ lhs ∧ lhs ≤ high else low < lhs ∧ lhs < high
  let below := num / den
  let up : Bool := den < 2 * (num % den) ∨ (2 * (num % den) = den ∧ below % 2 = 1)
  let (first, second) := if up then (below + 1, below) else (below, below + 1)
  if inside first then some first
  else if inside second then some second
  else none

/--
Decimal digits `c` and an exponent `k` such that c * 10^k rounds to `x` and
no shorter decimal does. The scan goes from a grid too coarse for any hit down.
-/
def shortest (x : Binary64) : Nat × Int :=
  let (n, d) := x.ratio
  let top : Int := ((n.log2 : Int) - (d.log2 : Int) + 2) * 30103 / 100000 + 2
  ((List.range 24).findSome? fun (i : Nat) =>
    let k := top - i
    (x.onGrid? k).map fun c => (c, k)).getD (0, 0)

/--
The text of a double: the shortest digits, positional between `1e-5` and
`1e16` and always with a point there, else with a signed exponent.
-/
def text (x : Binary64) : String :=
  let sign := if x.negative then "-" else ""
  if x.isZero then sign ++ "0.0"
  else
    let (c, k) := x.shortest
    let digits := (Nat.repr c).toList
    let point : Int := digits.length + k
    let zeros (n : Int) : List Char := List.replicate n.toNat '0'
    let body : List Char :=
      if 0 ≤ k ∧ point ≤ 16 then digits ++ zeros k ++ ['.', '0']
      else if 0 < point ∧ point ≤ 16 then
        digits.take point.toNat ++ '.' :: digits.drop point.toNat
      else if -5 < point ∧ point ≤ 0 then '0' :: '.' :: zeros (-point) ++ digits
      else
        let exponent := point - 1
        let mark := if exponent < 0 then "e-" else "e+"
        let mantissa := match digits with
          | [d] => [d]
          | d :: rest => d :: '.' :: rest
          | [] => []
        mantissa ++ mark.toList ++ (Nat.repr exponent.natAbs).toList
    sign ++ String.ofList body

end Binary64

end EndpointTree
