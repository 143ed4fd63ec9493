import EndpointTree.Json.Parser

/-!
# Reading records

A record is an object of which only some members are wanted. The values of its
other members are passed over: they have to follow the grammar, but they may nest
to any depth, their numbers may have any size, and their texts need not be UTF-8
nor pair their surrogates. The keys of a record are read like any text.

* `Json.parseRecord?` reads a record; any other document is read in full.
-/

namespace EndpointTree.Json

/-- The characters that may follow a backslash, numeric escapes aside. -/
def plainEscapes : List UInt8 := "\"\\/bfnrt".toList.map byte

/-- Pass over a text behind its opening quote. -/
def skipText? : List UInt8 → Option (List UInt8)
  | [] => none
  | b :: rest =>
    if b = byte '"' then some rest
    else if b = byte '\\' then
      match rest with
      | [] => none
      | c :: rest =>
        if c = byte 'u' then
          match rest with
          | w :: x :: y :: z :: rest =>
            if [w, x, y, z].all fun d => (hexValue? d).isSome then skipText? rest else none
          | _ => none
        else if plainEscapes.contains c then skipText? rest
        else none
    else if b < 0x20 then none
    else skipText? rest

/-- Pass over at least one digit. -/
def skipDigits? (bs : List UInt8) : Option (List UInt8) :=
  if bs.head?.any isDigitByte then some (bs.dropWhile isDigitByte) else none

/-- Pass over the part of a number behind `e` or `E`, if there is one. -/
def skipExponent? : List UInt8 → Option (List UInt8)
  | b :: rest =>
    if b = byte 'e' || b = byte 'E' then
      skipDigits? (if rest.head?.any fun c => c = byte '+' || c = byte '-' then rest.drop 1 else rest)
    else some (b :: rest)
  | [] => some []

/-- Pass over a number behind its sign. -/
def skipNumber? (bs : List UInt8) : Option (List UInt8) := do
  let rest ← skipDigits? bs
  if bs.head? = some (byte '0') && rest.length + 1 ≠ bs.length then none
  match rest with
  | b :: behind => if b = byte '.' then skipExponent? (← skipDigits? behind) else skipExponent? rest
  | [] => some []

/-- Pass over a word behind its first letter. -/
def skipWord? (letters : String) (bs : List UInt8) : Option (List UInt8) :=
  (word (letters.toList.map byte) bs).toOption

/-- Pass over a value that is neither a list nor an object. -/
def skipScalar? : List UInt8 → Option (List UInt8)
  | [] => none
  | b :: rest =>
    if b = byte 'n' then skipWord? "ull" rest
    else if b = byte 't' then skipWord? "rue" rest
    else if b = byte 'f' then skipWord? "alse" rest
    else if b = byte '"' then skipText? rest
    else if b = byte '-' then skipNumber? rest
    else skipNumber? (b :: rest)

/-- Pass over a key and its colon. -/
def skipKey? (bs : List UInt8) : Option (List UInt8) :=
  match skipBlanks bs with
  | [] => none
  | q :: rest =>
    if q ≠ byte '"' then none
    else match (skipText? rest).map skipBlanks with
      | some (c :: rest) => if c = byte ':' then some rest else none
      | _ => none

/--
Pass over a value within open brackets, innermost first, up to the last of them.
With `behind` the value itself is already passed. At most `steps` marks are read.
-/
def skipValue? (steps : Nat) (behind : Bool) (brackets bs : List UInt8) : Option (List UInt8) :=
  match steps with
  | 0 => none
  | steps + 1 =>
    if behind then
      match brackets with
      | [] => some bs
      | bracket :: outer =>
        match skipBlanks bs with
        | [] => none
        | b :: rest =>
          if b = byte ',' then
            match if bracket = byte '[' then some rest else skipKey? rest with
            | some rest => skipValue? steps false brackets rest
            | none => none
          else if b = (if bracket = byte '[' then byte ']' else byte '}') then
            skipValue? steps true outer rest
          else none
    else
      match skipBlanks bs with
      | [] => none
      | b :: rest =>
        if b = byte '[' then
          match skipBlanks rest with
          | [] => none
          | c :: inner =>
            if c = byte ']' then skipValue? steps true brackets inner
            else skipValue? steps false (b :: brackets) rest
        else if b = byte '{' then
          match skipBlanks rest with
          | [] => none
          | c :: inner =>
            if c = byte '}' then skipValue? steps true brackets inner
            else match skipKey? rest with
              | some rest => skipValue? steps false (b :: brackets) rest
              | none => none
        else match skipScalar? (b :: rest) with
          | some rest => skipValue? steps true brackets rest
          | none => none

/-- The wanted members of a record behind its opening brace, and the rest. -/
def recordMembers? (wanted : List String) (steps : Nat) (bs : List UInt8) :
    Option (List (String × Json) × List UInt8) :=
  match steps with
  | 0 => none
  | steps + 1 => do
    let q :: rest := skipBlanks bs | none
    if q ≠ byte '"' then none
    let (key, rest) ← (stringAfterQuote rest).toOption
    let colon :: rest := skipBlanks rest | none
    if colon ≠ byte ':' then none
    let (member, rest) ←
      if wanted.contains key then do
        let (x, rest) ← (value (2 * rest.length + 2) (levelLimit - 1) rest).toOption
        pure ([(key, x)], rest)
      else (skipValue? (2 * rest.length + 2) false [] rest).map fun rest => ([], rest)
    let b :: rest := skipBlanks rest | none
    if b = byte '}' then return (member, rest)
    else if b = byte ',' then
      let (further, rest) ← recordMembers? wanted steps rest
      return (member ++ further, rest)
    else none

/-- Read a record with its wanted members only, repeated keys kept. -/
def parseRecord? (wanted : List String) (bytes : ByteArray) : Option Json := do
  let bs := bytes.toList
  let b :: rest := skipBlanks bs | none
  if b ≠ byte '{' then (document bs).toOption
  else
    let (members, rest) ← match skipBlanks rest with
      | c :: inner => if c = byte '}' then some ([], inner) else recordMembers? wanted bs.length rest
      | [] => none
    if (skipBlanks rest).isEmpty then some (.object members) else none

end EndpointTree.Json
