/-!
# Base64 with the URL alphabet

Three bytes are four characters; a shorter last group has two or three, and
there is no padding. Decoding refuses every text that encoding does not
produce: other characters, a lone last character, and bits past the last byte.
-/

namespace EndpointTree.Text.Base64Url

/-- The digit of a number below 64. -/
def digit (n : Nat) : Char :=
  if n < 26 then Char.ofNat (65 + n)
  else if n < 52 then Char.ofNat (71 + n)
  else if n < 62 then Char.ofNat (n - 4)
  else if n = 62 then '-'
  else '_'

/-- The number that a digit stands for. -/
def value? (c : Char) : Option Nat :=
  let n := c.toNat
  if 65 ≤ n ∧ n ≤ 90 then some (n - 65)
  else if 97 ≤ n ∧ n ≤ 122 then some (n - 71)
  else if 48 ≤ n ∧ n ≤ 57 then some (n + 4)
  else if c = '-' then some 62
  else if c = '_' then some 63
  else none

/-- The digits of bytes in groups of three, without padding behind the last one. -/
def encode : List UInt8 → List Char
  | [] => []
  | [a] => [digit (a.toNat / 4), digit (a.toNat % 4 * 16)]
  | [a, b] =>
    [digit (a.toNat / 4), digit (a.toNat % 4 * 16 + b.toNat / 16), digit (b.toNat % 16 * 4)]
  | a :: b :: c :: rest =>
    digit (a.toNat / 4) :: digit (a.toNat % 4 * 16 + b.toNat / 16) ::
      digit (b.toNat % 16 * 4 + c.toNat / 64) :: digit (c.toNat % 64) :: encode rest

/-- The bytes of a text that encoding can have produced. -/
def decode? : List Char → Option (List UInt8)
  | [] => some []
  | [_] => none
  | [c, d] => do
    let x ← value? c
    let y ← value? d
    if y % 16 = 0 then some [(x * 4 + y / 16).toUInt8] else none
  | [c, d, e] => do
    let x ← value? c
    let y ← value? d
    let z ← value? e
    if z % 4 = 0 then some [(x * 4 + y / 16).toUInt8, (y % 16 * 16 + z / 4).toUInt8] else none
  | c :: d :: e :: f :: rest => do
    let x ← value? c
    let y ← value? d
    let z ← value? e
    let w ← value? f
    let more ← decode? rest
    some ((x * 4 + y / 16).toUInt8 :: (y % 16 * 16 + z / 4).toUInt8 ::
      (z % 4 * 64 + w).toUInt8 :: more)

end EndpointTree.Text.Base64Url
