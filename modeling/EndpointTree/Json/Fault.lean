/-!
# Why a text is no document

A fault names its cause and the place where reading stopped: the line, counted
from one, and the number of bytes read on that line.
-/

namespace EndpointTree.Json

/-- What was wrong with a text. -/
inductive FaultCause where
  | endInValue
  | endInObject
  | endInList
  | endInString
  | valueExpected
  | wordExpected
  | colonExpected
  | listEndExpected
  | objectEndExpected
  | keyNotString
  | trailingComma
  | trailingCharacters
  | invalidNumber
  | numberOutOfRange
  | controlCharacter
  | invalidEscape
  | hexEscapeCutShort
  | loneSurrogate
  | invalidCodePoint
  | nestedTooDeep
  deriving DecidableEq, Repr

/-- The wording of a cause. -/
def FaultCause.message : FaultCause → String
  | .endInValue => "EOF while parsing a value"
  | .endInObject => "EOF while parsing an object"
  | .endInList => "EOF while parsing a list"
  | .endInString => "EOF while parsing a string"
  | .valueExpected => "expected value"
  | .wordExpected => "expected ident"
  | .colonExpected => "expected `:`"
  | .listEndExpected => "expected `,` or `]`"
  | .objectEndExpected => "expected `,` or `\x7d`"
  | .keyNotString => "key must be a string"
  | .trailingComma => "trailing comma"
  | .trailingCharacters => "trailing characters"
  | .invalidNumber => "invalid number"
  | .numberOutOfRange => "number out of range"
  | .controlCharacter => "control character (\\u0000-\\u001F) found while parsing a string"
  | .invalidEscape => "invalid escape"
  | .hexEscapeCutShort => "unexpected end of hex escape"
  | .loneSurrogate => "lone leading surrogate in hex escape"
  | .invalidCodePoint => "invalid unicode code point"
  | .nestedTooDeep => "recursion limit exceeded"

/-- A cause and the place where reading stopped. -/
structure Fault where
  cause : FaultCause
  line : Nat
  column : Nat
  deriving DecidableEq, Repr

/-- The wording of a fault, with its place. -/
def Fault.message (f : Fault) : String :=
  s!"{f.cause.message} at line {f.line} column {f.column}"

end EndpointTree.Json
