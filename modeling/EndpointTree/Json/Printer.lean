import EndpointTree.Json.Value

/-!
# Printing documents

`Json.chars` is the compact form: no blanks, members in their order, and in
strings an escape for the quote, the backslash and every control character
below the space. `Json.pretty` sets one item to a line, two spaces deeper at
each level, and leaves an empty array or object closed up.
-/

namespace EndpointTree.Json

/-- One lower-case hexadecimal digit. -/
def hexDigit (n : Nat) : Char := if n < 10 then Char.ofNat (48 + n) else Char.ofNat (87 + n)

/-- A character as it stands between the quotes of a string. -/
def escaped (c : Char) : List Char :=
  if c = '"' then ['\\', '"']
  else if c = '\\' then ['\\', '\\']
  else if c = '\x08' then ['\\', 'b']
  else if c = '\x0c' then ['\\', 'f']
  else if c = '\n' then ['\\', 'n']
  else if c = '\r' then ['\\', 'r']
  else if c = '\t' then ['\\', 't']
  else if c.toNat < 0x20 then
    ['\\', 'u', '0', '0', hexDigit (c.toNat / 16), hexDigit (c.toNat % 16)]
  else [c]

/-- A string between quotes. -/
def quoted (s : String) : List Char :=
  '"' :: s.toList.flatMap escaped ++ ['"']

mutual

/-- The compact form of a document. -/
def chars : Json → List Char
  | .null => ['n', 'u', 'l', 'l']
  | .bool true => ['t', 'r', 'u', 'e']
  | .bool false => ['f', 'a', 'l', 's', 'e']
  | .number n => n.text.toList
  | .string s => quoted s
  | .array items => '[' :: itemChars items ++ [']']
  | .object members => '{' :: memberChars members ++ ['}']

/-- Items set apart by commas. -/
def itemChars : List Json → List Char
  | [] => []
  | [x] => chars x
  | x :: rest => chars x ++ ',' :: itemChars rest

/-- Members set apart by commas. -/
def memberChars : List (String × Json) → List Char
  | [] => []
  | [(k, x)] => quoted k ++ ':' :: chars x
  | (k, x) :: rest => quoted k ++ ':' :: chars x ++ ',' :: memberChars rest

end

/-- The compact text of a document. -/
def text (value : Json) : String := String.ofList value.chars

/-- A line break and the blanks that lead a line at `depth`. -/
def lineStart (depth : Nat) : List Char := '\n' :: List.replicate (2 * depth) ' '

mutual

/-- The form with one item to a line, for a document that stands at `depth`. -/
def prettyChars (depth : Nat) : Json → List Char
  | .array [] => ['[', ']']
  | .array items => '[' :: prettyItems (depth + 1) items ++ lineStart depth ++ [']']
  | .object [] => ['{', '}']
  | .object members => '{' :: prettyMembers (depth + 1) members ++ lineStart depth ++ ['}']
  | .null => chars .null
  | .bool b => chars (.bool b)
  | .number n => n.text.toList
  | .string s => quoted s

/-- Items on lines of their own. -/
def prettyItems (depth : Nat) : List Json → List Char
  | [] => []
  | [x] => lineStart depth ++ prettyChars depth x
  | x :: rest => lineStart depth ++ prettyChars depth x ++ ',' :: prettyItems depth rest

/-- Members on lines of their own. -/
def prettyMembers (depth : Nat) : List (String × Json) → List Char
  | [] => []
  | [(k, x)] => lineStart depth ++ quoted k ++ ':' :: ' ' :: prettyChars depth x
  | (k, x) :: rest =>
    lineStart depth ++ quoted k ++ ':' :: ' ' :: prettyChars depth x ++
      ',' :: prettyMembers depth rest

end

/-- The text with one item to a line. -/
def pretty (value : Json) : String := String.ofList (value.prettyChars 0)

end EndpointTree.Json
