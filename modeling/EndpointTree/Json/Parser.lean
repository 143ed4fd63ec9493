import EndpointTree.Json.Fault
import EndpointTree.Json.Printer
import EndpointTree.Text.Lossy

/-!
# Reading documents

The reader works on bytes and hands the unread rest from one step to the next,
so that a place in the text is the number of bytes that are still unread. A
string is collected as bytes, escapes included, and checked as UTF-8 once its
closing quote is read. Nesting is limited by a count of the levels that are
still allowed.

* `Json.parseRaw` keeps repeated keys as they are written.
* `Json.parse` settles them: the first place, the last value.
-/

namespace EndpointTree.Json

/-- Reading stopped for a cause, with a number of bytes unread. -/
structure Halt where
  cause : FaultCause
  unread : Nat

/-- A reading step: a result with the unread rest, or a halt. -/
abbrev Scan (α : Type) := Except Halt (α × List UInt8)

/-- Stop in front of the unread bytes. -/
def stopAt {α : Type} (cause : FaultCause) (unread : List UInt8) : Except Halt α :=
  .error ⟨cause, unread.length⟩

/-- Stop behind the first unread byte, if there is one. -/
def stopPast {α : Type} (cause : FaultCause) (unread : List UInt8) : Except Halt α :=
  .error ⟨cause, unread.length - 1⟩

/-- The byte of an ASCII character. -/
def byte (c : Char) : UInt8 := c.toNat.toUInt8

/-- The four blanks of the format. -/
def isBlankByte (b : UInt8) : Bool :=
  b = byte ' ' || b = byte '\n' || b = byte '\t' || b = byte '\r'

/-- Drop leading blanks. -/
def skipBlanks (bs : List UInt8) : List UInt8 := bs.dropWhile isBlankByte

/-- Whether a byte is a decimal digit. -/
def isDigitByte (b : UInt8) : Bool := byte '0' ≤ b && b ≤ byte '9'

/-- The value of a decimal digit. -/
def digitValue (b : UInt8) : Nat := b.toNat - 48

/-- The value of a hexadecimal digit of either case. -/
def hexValue? (b : UInt8) : Option Nat :=
  if isDigitByte b then some (digitValue b)
  else if byte 'a' ≤ b && b ≤ byte 'f' then some (b.toNat - 87)
  else if byte 'A' ≤ b && b ≤ byte 'F' then some (b.toNat - 55)
  else none

/-- Read the rest of `null`, `true` or `false`. -/
def word : List UInt8 → List UInt8 → Except Halt (List UInt8)
  | [], bs => .ok bs
  | _ :: _, [] => stopAt .endInValue []
  | expected :: more, b :: bs => if b = expected then word more bs else stopAt .wordExpected bs

/-! ## Strings -/

/-- Four hexadecimal digits. -/
def hexEscape : List UInt8 → Scan Nat
  | a :: b :: c :: d :: rest =>
    match hexValue? a, hexValue? b, hexValue? c, hexValue? d with
    | some a, some b, some c, some d => .ok (((a * 16 + b) * 16 + c) * 16 + d, rest)
    | _, _, _, _ => stopAt .invalidEscape rest
  | _ => stopAt .endInString []

/-- The second half of a surrogate pair, introduced by an escape of its own. -/
def trailingSurrogate : List UInt8 → Scan Nat
  | [] => stopAt .endInString []
  | b :: rest =>
    if b ≠ byte '\\' then stopAt .hexEscapeCutShort rest
    else match rest with
      | [] => stopAt .endInString []
      | c :: rest =>
        if c ≠ byte 'u' then stopAt .hexEscapeCutShort rest
        else match hexEscape rest with
          | .error halt => .error halt
          | .ok (unit, rest) =>
            if 0xDC00 ≤ unit && unit ≤ 0xDFFF then .ok (unit, rest)
            else stopAt .loneSurrogate rest

/-- The code point of a `\u` escape; two surrogates together name one. -/
def codePoint (bs : List UInt8) : Scan Nat :=
  match hexEscape bs with
  | .error halt => .error halt
  | .ok (unit, rest) =>
    if 0xDC00 ≤ unit && unit ≤ 0xDFFF then stopAt .loneSurrogate rest
    else if 0xD800 ≤ unit && unit ≤ 0xDBFF then
      match trailingSurrogate rest with
      | .error halt => .error halt
      | .ok (low, rest) => .ok ((unit - 0xD800) * 1024 + (low - 0xDC00) + 0x10000, rest)
    else .ok (unit, rest)

/-- The bytes that an escape stands for; the backslash is already read. -/
def escape : List UInt8 → Scan (List UInt8)
  | [] => stopAt .endInString []
  | b :: rest =>
    if b = byte '"' then .ok ([byte '"'], rest)
    else if b = byte '\\' then .ok ([byte '\\'], rest)
    else if b = byte '/' then .ok ([byte '/'], rest)
    else if b = byte 'b' then .ok ([8], rest)
    else if b = byte 'f' then .ok ([12], rest)
    else if b = byte 'n' then .ok ([10], rest)
    else if b = byte 'r' then .ok ([13], rest)
    else if b = byte 't' then .ok ([9], rest)
    else if b = byte 'u' then
      match codePoint rest with
      | .error halt => .error halt
      | .ok (point, rest) => .ok (String.utf8EncodeChar (Char.ofNat point), rest)
    else stopAt .invalidEscape rest

/--
The bytes of a string up to its closing quote; the opening quote is already
read and `done` holds, last first, what has been collected. The count bounds
the steps, each of which reads at least one byte.
-/
def stringBytes (steps : Nat) (done : List UInt8) : List UInt8 → Scan (List UInt8)
  | [] => stopAt .endInString []
  | b :: rest =>
    match steps with
    | 0 => stopAt .endInString []
    | steps + 1 =>
      if b = byte '"' then .ok (done.reverse, rest)
      else if b = byte '\\' then
        match escape rest with
        | .error halt => .error halt
        | .ok (bytes, rest) => stringBytes steps (bytes.reverse ++ done) rest
      else if b < 0x20 then stopAt .controlCharacter rest
      else stringBytes steps (b :: done) rest

/--
A string whose opening quote is already read. One that is not well formed is laid
against its closing quote to tell the place of the first bad byte, so that escapes
in front of that byte do not count and those behind it count as what they stand for.
-/
def stringAfterQuote (bs : List UInt8) : Scan String :=
  match stringBytes bs.length [] bs with
  | .error halt => .error halt
  | .ok (bytes, rest) =>
    match String.fromUTF8? ⟨bytes.toArray⟩ with
    | some s => .ok (s, rest)
    | none =>
      let bad := bytes.length - Text.validLength bytes.length bytes
      .error ⟨.invalidCodePoint, rest.length + bad⟩

/-! ## Numbers -/

/-- Significands stay below this limit, 2^64. -/
abbrev significandLimit : Nat := 18446744073709551616

/-- The digits of an exponent stay below this limit, 2^31. -/
abbrev exponentLimit : Nat := 2147483648

/-- Take digits into a significand while it stays below its limit, and count them. -/
def absorb (significand : Nat) : List UInt8 → Nat × Nat × List UInt8
  | [] => (significand, 0, [])
  | b :: rest =>
    let next := significand * 10 + digitValue b
    if isDigitByte b && next < significandLimit then
      let (s, taken, rest) := absorb next rest
      (s, taken + 1, rest)
    else (significand, 0, b :: rest)

/-- Read the digits of an exponent; none once it reaches its limit. -/
def exponentDigits (value : Nat) : List UInt8 → Option Nat × List UInt8
  | [] => (some value, [])
  | b :: rest =>
    if isDigitByte b then
      let next := value * 10 + digitValue b
      if next < exponentLimit then exponentDigits next rest else (none, rest)
    else (some value, b :: rest)

/-- The double of a decimal, in front of the unread rest. -/
def realNumber (x : Decimal) (rest : List UInt8) : Scan Number :=
  match x.toBinary64? with
  | some value => .ok (.real value, rest)
  | none => stopAt .numberOutOfRange rest

/-- The part of a number behind `e` or `E`. -/
def exponentPart (x : Decimal) (bs : List UInt8) : Scan Number :=
  let (down, bs) := match bs with
    | b :: rest =>
      if b = byte '+' then (false, rest) else if b = byte '-' then (true, rest) else (false, bs)
    | [] => (false, [])
  match bs with
  | [] => stopAt .endInValue []
  | b :: rest =>
    if isDigitByte b then
      match exponentDigits (digitValue b) rest with
      | (some power, rest) =>
        let exponent := if down then x.exponent - power else x.exponent + power
        realNumber { x with exponent } rest
      | (none, rest) =>
        if x.significand ≠ 0 && !down then stopAt .numberOutOfRange rest
        else .ok (.real (.zero x.negative), rest.dropWhile isDigitByte)
    else stopAt .invalidNumber rest

/-- The part of a number behind its point; digits past the precision are dropped. -/
def fractionPart (x : Decimal) (bs : List UInt8) : Scan Number :=
  match bs with
  | [] => stopAt .endInValue []
  | b :: _ =>
    if isDigitByte b then
      let (significand, taken, rest) := absorb x.significand bs
      let x : Decimal := ⟨x.negative, significand, x.exponent - taken⟩
      match rest.dropWhile isDigitByte with
      | [] => realNumber x []
      | c :: rest =>
        if c = byte 'e' || c = byte 'E' then exponentPart x rest else realNumber x (c :: rest)
    else stopPast .invalidNumber bs

/-- An integer where the range admits it; minus zero is a double. -/
def wholeNumber (negative : Bool) (significand : Nat) : Number :=
  if negative then
    if significand = 0 then .real (.zero true) else .ofInt (-significand)
  else .ofInt significand

/-- What follows the digits in front of the point; `dropped` of them passed the precision. -/
def numberTail (negative : Bool) (significand dropped : Nat) (bs : List UInt8) : Scan Number :=
  let x : Decimal := ⟨negative, significand, dropped⟩
  let whole (rest : List UInt8) : Scan Number :=
    if dropped = 0 then .ok (wholeNumber negative significand, rest) else realNumber x rest
  match bs with
  | [] => whole []
  | b :: rest =>
    if b = byte '.' then fractionPart x rest
    else if b = byte 'e' || b = byte 'E' then exponentPart x rest
    else whole (b :: rest)

/-- A number whose sign is already read. -/
def unsignedNumber (negative : Bool) : List UInt8 → Scan Number
  | [] => stopAt .endInValue []
  | b :: rest =>
    if b = byte '0' then
      match rest with
      | c :: _ =>
        if isDigitByte c then stopPast .invalidNumber rest else numberTail negative 0 0 rest
      | [] => numberTail negative 0 0 []
    else if isDigitByte b then
      let (significand, _, rest) := absorb (digitValue b) rest
      let dropped := rest.takeWhile isDigitByte
      numberTail negative significand dropped.length (rest.dropWhile isDigitByte)
    else stopAt .invalidNumber rest

/-! ## Documents -/

/-- How many levels of arrays and objects may be open, the last one excluded. -/
def levelLimit : Nat := 128

mutual

/-- A document behind optional blanks, with `levels` left to open. -/
def value (steps levels : Nat) (bs : List UInt8) : Scan Json :=
  match steps with
  | 0 => stopAt .nestedTooDeep bs
  | steps + 1 =>
    match skipBlanks bs with
    | [] => stopAt .endInValue []
    | b :: rest =>
      if b = byte 'n' then (word ("ull".toList.map byte) rest).map fun r => (.null, r)
      else if b = byte 't' then (word ("rue".toList.map byte) rest).map fun r => (.bool true, r)
      else if b = byte 'f' then (word ("alse".toList.map byte) rest).map fun r => (.bool false, r)
      else if b = byte '-' then (unsignedNumber true rest).map fun (n, r) => (.number n, r)
      else if isDigitByte b then (unsignedNumber false (b :: rest)).map fun (n, r) => (.number n, r)
      else if b = byte '"' then (stringAfterQuote rest).map fun (s, r) => (.string s, r)
      else if b = byte '[' then
        if levels ≤ 1 then stopPast .nestedTooDeep (b :: rest)
        else match skipBlanks rest with
          | [] => stopAt .endInList []
          | c :: rest =>
            if c = byte ']' then .ok (.array [], rest)
            else (itemsFrom steps (levels - 1) (c :: rest)).map fun (xs, r) => (.array xs, r)
      else if b = byte '{' then
        if levels ≤ 1 then stopPast .nestedTooDeep (b :: rest)
        else match skipBlanks rest with
          | [] => stopAt .endInObject []
          | c :: rest =>
            if c = byte '}' then .ok (.object [], rest)
            else (membersFrom steps (levels - 1) (c :: rest)).map fun (xs, r) => (.object xs, r)
      else stopPast .valueExpected (b :: rest)

/-- The items of an array from one that has to be there, through the closing bracket. -/
def itemsFrom (steps levels : Nat) (bs : List UInt8) : Scan (List Json) :=
  match steps with
  | 0 => stopAt .nestedTooDeep bs
  | steps + 1 =>
    match value steps levels bs with
    | .error halt => .error halt
    | .ok (x, rest) =>
      match skipBlanks rest with
      | [] => stopAt .endInList []
      | b :: rest =>
        if b = byte ']' then .ok ([x], rest)
        else if b = byte ',' then
          match skipBlanks rest with
          | [] => stopAt .endInValue []
          | c :: rest =>
            if c = byte ']' then stopPast .trailingComma (c :: rest)
            else (itemsFrom steps levels (c :: rest)).map fun (xs, r) => (x :: xs, r)
        else stopPast .listEndExpected (b :: rest)

/-- The members of an object from one that has to be there, through the closing brace. -/
def membersFrom (steps levels : Nat) (bs : List UInt8) : Scan (List (String × Json)) :=
  match steps with
  | 0 => stopAt .nestedTooDeep bs
  | steps + 1 =>
    match bs with
    | [] => stopAt .endInObject []
    | q :: rest =>
      if q ≠ byte '"' then stopPast .keyNotString (q :: rest)
      else match stringAfterQuote rest with
        | .error halt => .error halt
        | .ok (key, rest) =>
          match skipBlanks rest with
          | [] => stopAt .endInObject []
          | b :: rest =>
            if b ≠ byte ':' then stopPast .colonExpected (b :: rest)
            else match value steps levels rest with
              | .error halt => .error halt
              | .ok (x, rest) =>
                match skipBlanks rest with
                | [] => stopAt .endInObject []
                | b :: rest =>
                  if b = byte '}' then .ok ([(key, x)], rest)
                  else if b = byte ',' then
                    match skipBlanks rest with
                    | [] => stopAt .endInValue []
                    | c :: rest =>
                      if c = byte '}' then stopPast .trailingComma (c :: rest)
                      else (membersFrom steps levels (c :: rest)).map
                        fun (xs, r) => ((key, x) :: xs, r)
                  else stopPast .objectEndExpected (b :: rest)

end

/-- Read one document with blanks around it and nothing else. -/
def document (bs : List UInt8) : Except Halt Json :=
  match value (2 * bs.length + 2) levelLimit bs with
  | .error halt => .error halt
  | .ok (x, rest) =>
    match skipBlanks rest with
    | [] => .ok x
    | b :: rest => stopPast .trailingCharacters (b :: rest)

/-- The place of a halt in the text: the line from one, and the bytes read on it. -/
def Halt.locate (halt : Halt) (bs : List UInt8) : Fault :=
  let read := bs.take (bs.length - halt.unread)
  { cause := halt.cause
    line := 1 + read.count (byte '\n')
    column := (read.reverse.takeWhile (· ≠ byte '\n')).length }

/-- Read a document and keep repeated keys. -/
def parseRaw (bytes : ByteArray) : Except Fault Json :=
  let bs := bytes.toList
  match document bs with
  | .ok x => .ok x
  | .error halt => .error (halt.locate bs)

/-- Read a document; a repeated key keeps its first place and its last value. -/
def parse (bytes : ByteArray) : Except Fault Json := (parseRaw bytes).map settled

end EndpointTree.Json
