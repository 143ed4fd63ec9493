import EndpointTree.Dict
import EndpointTree.Text.Lossy

/-!
# Percent-encoding and forms

A percent sign with two hexadecimal digits behind it stands for a byte; any other
percent sign stands for itself. In a form, pairs are divided by `&`, a key ends at
the first `=`, a plus sign stands for a space, and bytes that are no text are
replaced.
-/

namespace EndpointTree.Http

/-- The value of a hexadecimal digit. -/
def hexValue? (b : UInt8) : Option UInt8 :=
  if 48 ≤ b ∧ b ≤ 57 then some (b - 48)
  else if 65 ≤ b ∧ b ≤ 70 then some (b - 55)
  else if 97 ≤ b ∧ b ≤ 102 then some (b - 87)
  else none

/-- The byte of two hexadecimal digits. -/
def hexByte? (high low : UInt8) : Option UInt8 := do
  return (← hexValue? high) * 16 + (← hexValue? low)

def percent : UInt8 := 37

/-- Bytes with every escape replaced by the byte that it stands for. -/
def percentDecode : List UInt8 → List UInt8
  | [] => []
  | [a] => [a]
  | [a, b] => [a, b]
  | a :: b :: c :: rest =>
    if a = percent then
      match hexByte? b c with
      | some byte => byte :: percentDecode rest
      | none => a :: percentDecode (b :: c :: rest)
    else a :: percentDecode (b :: c :: rest)

def bytesOf (s : List Char) : List UInt8 := (String.ofList s).toUTF8.toList

/-- The text that a percent-encoded text stands for; none where the bytes are no text. -/
def decodeText? (s : List Char) : Option String :=
  String.fromUTF8? ⟨(percentDecode (bytesOf s)).toArray⟩

/-- A plus sign as the space that it stands for in a form. -/
def plusToSpace (b : UInt8) : UInt8 := if b = 43 then 32 else b

/-- The text of one part of a form. -/
def decodeFormPart (s : List Char) : String :=
  Text.lossy (percentDecode ((bytesOf s).map plusToSpace))

/-- The pieces between a dividing character. -/
def splitAt (divider : Char) : List Char → List (List Char)
  | [] => [[]]
  | c :: rest =>
    if c = divider then [] :: splitAt divider rest
    else match splitAt divider rest with
      | [] => [[c]]
      | piece :: more => (c :: piece) :: more

/-- The key and the value of a pair; without a mark the value is empty. -/
def formPair (piece : List Char) : String × String :=
  let key := piece.takeWhile (· ≠ '=')
  (decodeFormPart key, decodeFormPart (piece.drop (key.length + 1)))

/-- The pairs of a form; empty pieces are none. -/
def formPairs (s : List Char) : List (String × String) :=
  ((splitAt '&' s).filter fun piece => !piece.isEmpty).map formPair

/-- A query as a dictionary; of pairs with one key the last counts. -/
def queryOf (s : List Char) : Dict String := Dict.ofList (formPairs s)

end EndpointTree.Http
