/-!
# Header fields

Header fields keep the order in which they arrived; their names are lower case
and their values are bytes. A name is a token, and a value holds no control
character but the tab.
-/

namespace EndpointTree.Http

/-- Header fields in order of arrival, names in lower case. -/
abbrev Headers := List (String × List UInt8)

namespace Headers

/-- The value of the first field under a name in lower case. -/
def get? (headers : Headers) (name : String) : Option (List UInt8) := headers.lookup name

/-- Whether there is a field under a name in lower case. -/
def has (headers : Headers) (name : String) : Bool := (headers.get? name).isSome

end Headers

/-- Whether a character may stand in a header name or a method. -/
def isTokenChar (c : Char) : Bool :=
  c.isAlphanum || "!#$%&'*+-.^_`|~".toList.contains c

/-- A letter in lower case; only those of ASCII have one. -/
def lowerAscii (c : Char) : Char := if 'A' ≤ c ∧ c ≤ 'Z' then Char.ofNat (c.toNat + 32) else c

/-- A letter in upper case; only those of ASCII have one. -/
def upperAscii (c : Char) : Char := if 'a' ≤ c ∧ c ≤ 'z' then Char.ofNat (c.toNat - 32) else c

/-- A header name in lower case; none where the text is no token. -/
def headerName? (name : String) : Option String :=
  if name ≠ "" ∧ name.toList.all isTokenChar then
    some (String.ofList (name.toList.map lowerAscii))
  else none

/-- Whether bytes may form a header value. -/
def isHeaderValue (bytes : List UInt8) : Bool := bytes.all fun b => (32 ≤ b && b ≠ 127) || b = 9

/-- Whether a byte is a visible ASCII character, a space or a tab. -/
def isPlainByte (b : UInt8) : Bool := (32 ≤ b && b < 127) || b = 9

/-- The text of a value that holds plain bytes only. -/
def plainText? (bytes : List UInt8) : Option String :=
  if bytes.all isPlainByte then some (String.ofList (bytes.map fun b => Char.ofNat b.toNat))
  else none

/-- The media type of a JSON body. -/
def jsonMedia : String := "application/json"

/-- The media type of a text body. -/
def textMedia : String := "text/plain; charset=utf-8"

end EndpointTree.Http
