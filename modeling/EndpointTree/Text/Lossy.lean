/-!
# Text from any bytes

Bytes are read as UTF-8, and what is not well formed becomes the replacement
character: one for each longest start of a character that breaks off, and one for
each byte that starts none.

* `lossy` is the text of bytes, `validLength` the length of their well-formed front.
-/

namespace EndpointTree.Text

/-- The character that stands for what is not well formed. -/
def replacement : Char := '\ufffd'

/-- What a first byte says about the bytes behind it. -/
structure Lead where
  /-- The number of bytes that follow. -/
  more : Nat
  /-- The bits of the first byte. -/
  bits : Nat
  /-- The range of the second byte, which keeps out long forms and surrogates. -/
  low : UInt8 := 0x80
  high : UInt8 := 0xbf

/-- The reading of a first byte; none where no character starts with it. -/
def lead? (b : UInt8) : Option Lead :=
  let n := b.toNat
  if n < 0x80 then some ⟨0, n, 0x80, 0xbf⟩
  else if n < 0xc2 then none
  else if n < 0xe0 then some ⟨1, n - 0xc0, 0x80, 0xbf⟩
  else if n < 0xf0 then
    some ⟨2, n - 0xe0, if n = 0xe0 then 0xa0 else 0x80, if n = 0xed then 0x9f else 0xbf⟩
  else if n < 0xf5 then
    some ⟨3, n - 0xf0, if n = 0xf0 then 0x90 else 0x80, if n = 0xf4 then 0x8f else 0xbf⟩
  else none

/-- Read the bytes behind a first byte. -/
def followers (low high : UInt8) (bits : Nat) : Nat → List UInt8 → Char × List UInt8
  | 0, bytes => (Char.ofNat bits, bytes)
  | _ + 1, [] => (replacement, [])
  | more + 1, b :: rest =>
    if low ≤ b ∧ b ≤ high then followers 0x80 0xbf (bits * 64 + (b.toNat - 0x80)) more rest
    else (replacement, b :: rest)

/-- The characters of bytes, at most as many as `steps`. -/
def lossyChars : Nat → List UInt8 → List Char
  | 0, _ => []
  | _ + 1, [] => []
  | steps + 1, b :: rest =>
    match lead? b with
    | none => replacement :: lossyChars steps rest
    | some l =>
      let (c, after) := followers l.low l.high l.bits l.more rest
      c :: lossyChars steps after

/-- The rest behind so many bytes, the first in its own range and the others in the common one. -/
def behindFollowers? (low high : UInt8) : Nat → List UInt8 → Option (List UInt8)
  | 0, bytes => some bytes
  | _ + 1, [] => none
  | more + 1, b :: rest =>
    if low ≤ b ∧ b ≤ high then behindFollowers? 0x80 0xbf more rest else none

/-- How many bytes from the front are well formed, in at most `steps` characters. -/
def validLength : Nat → List UInt8 → Nat
  | 0, _ => 0
  | _ + 1, [] => 0
  | steps + 1, b :: rest =>
    match (lead? b).bind fun l =>
      (behindFollowers? l.low l.high l.more rest).map fun after => (l.more, after) with
    | some (more, after) => more + 1 + validLength steps after
    | none => 0

/-- The text of bytes; every character takes a byte, so the length bounds the steps. -/
def lossy (bytes : List UInt8) : String := String.ofList (lossyChars bytes.length bytes)

end EndpointTree.Text
