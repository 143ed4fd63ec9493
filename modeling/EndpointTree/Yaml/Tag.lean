import EndpointTree.Yaml.Cursor
import EndpointTree.Yaml.Scalar

/-!
# Tags

A tag is a handle with a suffix, or stands in full between angle brackets.
Directives in front of a document say which text a handle stands for; `!` and `!!`
have one of their own. Octets may be written with percent signs, and a zero octet
ends a text.

* `Tag.ofBytes?` is the meaning of a tag in full.
-/

namespace EndpointTree.Yaml

/-- What a tag says about its node. -/
inductive Tag where
  | null | bool | int | float
  /-- A shared tag without a meaning here. -/
  | shared
  /-- The mark `!` alone. -/
  | bare
  /-- A tag of the document's own. -/
  | own
  deriving DecidableEq

/-- The start of the tags of the core kinds. -/
def corePrefix : String := "tag:yaml.org,2002:"

namespace Tag

/-- The meaning of a tag in full; one of the document's own that is no text has none. -/
def ofBytes? (full : List UInt8) : Option Tag :=
  let core (kind : String) : Bool := full = (corePrefix ++ kind).toUTF8.toList
  if full.head? = some 33 then
    if full.length = 1 then some .bare
    else if (String.fromUTF8? (ByteArray.mk full.toArray)).isSome then some .own
    else none
  else if core "null" then some .null
  else if core "bool" then some .bool
  else if core "int" then some .int
  else if core "float" then some .float
  else some .shared

end Tag

/-- Whether a character may stand in a name. -/
def isNameChar (c : Char) : Bool := c.isAlphanum || c = '_' || c = '-'

/-- Read a name behind `&` or `*`; only a blank or certain marks may follow it. -/
def nodeName? (c : Cursor) : Option (String × Cursor) :=
  let (name, behind) := c.step.span isNameChar
  let closed := Cursor.endsWord behind.rest ||
    behind.ahead ['?', ':', ',', ']', '\x7d', '%', '@', '`']
  if name.isEmpty || !closed then none else some (String.ofList name, behind)

/-- Read a handle: an exclamation mark and perhaps a name with another one. -/
def tagHandle? (c : Cursor) : Option (String × Cursor) :=
  if !c.ahead ['!'] then none
  else
    let (name, behind) := c.step.span isNameChar
    let text := String.ofList ('!' :: name)
    if behind.ahead ['!'] then some (text ++ "!", behind.step) else some (text, behind)

/-- Whether a character may stand in a tag; some only between angle brackets. -/
def isTagChar (full : Bool) (c : Char) : Bool :=
  isNameChar c || [';', '/', '?', ':', '@', '&', '=', '+', '$', '.', '%', '!', '~', '*', '\'',
    '(', ')'].contains c || (full && [',', '[', ']'].contains c)

/-- How many octets a character has by its first one. -/
def octetCount? (n : Nat) : Option Nat :=
  if n < 0x80 then some 1
  else if 0xc0 ≤ n ∧ n < 0xe0 then some 2
  else if 0xe0 ≤ n ∧ n < 0xf0 then some 3
  else if 0xf0 ≤ n ∧ n < 0xf8 then some 4
  else none

/-- Read the octets of characters of which `due` octets are still to come. -/
def tagOctets? (full : Bool) (due : Nat) : List Char → Option (List UInt8 × Nat)
  | '%' :: a :: b :: rest => do
    let n ← naturalIn? 16 [a, b]
    let due ←
      if due = 0 then octetCount? n
      else if 0x80 ≤ n ∧ n < 0xc0 then some due
      else none
    let (octets, length) ← tagOctets? full (due - 1) rest
    return (n.toUInt8 :: octets, length + 3)
  | c :: rest =>
    if due ≠ 0 then none
    else if !isTagChar full c then some ([], 0)
    else if c = '%' then none
    else do
      let (octets, length) ← tagOctets? full 0 rest
      return (c.toNat.toUInt8 :: octets, length + 1)
  | [] => if due = 0 then some ([], 0) else none

/-- The octets of a text up to a zero one. -/
def upToZero (octets : List UInt8) : List UInt8 := octets.takeWhile (· ≠ 0)

/-- Read the text of a tag behind what stands before it; together they are not empty. -/
def tagText? (full : Bool) (before : List Char) (c : Cursor) : Option (List UInt8 × Cursor) := do
  let (octets, length) ← tagOctets? full 0 c.rest
  if before.isEmpty && length = 0 then none
  let front := (before.drop 1).map fun x => x.toNat.toUInt8
  return (upToZero (front ++ octets), c.advance length)

/-- Read a tag: its handle, empty where the tag is in full, and its text. -/
def tag? (flow : Bool) (c : Cursor) : Option (String × List UInt8 × Cursor) := do
  let (handle, text, behind) ←
    if c.step.ahead ['<'] then do
      let (text, behind) ← tagText? true [] (c.advance 2)
      if behind.ahead ['>'] then some ("", text, behind.step) else none
    else do
      let (handle, rest) ← tagHandle? c
      if 2 ≤ handle.length && handle.endsWith "!" then
        let (text, behind) ← tagText? false [] rest
        some (handle, text, behind)
      else
        let (text, behind) ← tagText? false handle.toList rest
        some (if text.isEmpty then ("", [33], behind) else ("!", text, behind))
  if Cursor.endsWord behind.rest || (flow && behind.ahead [',']) then
    some (handle, text, behind)
  else none

/-! ## Directives -/

/-- What stands in front of a document. -/
inductive Directive where
  | version (major minor : Nat)
  | handle (handle : String) (text : List UInt8)

/-- Read a number of a version, of at most nine digits. -/
def versionNumber? (c : Cursor) : Option (Nat × Cursor) := do
  let (digits, behind) := c.span fun x => (digitIn? 10 x).isSome
  if 9 < digits.length then none
  return (← naturalIn? 10 digits, behind)

/-- Read a directive from its percent sign up to the next line. -/
def directive? (c : Cursor) : Option (Directive × Cursor) := do
  let (name, behind) := c.step.span isNameChar
  if !Cursor.endsWord behind.rest then none
  let start := behind.skipBlanks
  if name = ['Y', 'A', 'M', 'L'] then
    let (major, point) ← versionNumber? start
    if !point.ahead ['.'] then none
    let (minor, behind) ← versionNumber? point.step
    return (.version major minor, ← behind.endLine?)
  else if name = ['T', 'A', 'G'] then
    let (handle, behind) ← tagHandle? start
    if handle ≠ "!" && !handle.endsWith "!" then none
    if !behind.rest.head?.any isBlank then none
    let (text, behind) ← tagText? true [] behind.skipBlanks
    if !Cursor.endsWord behind.rest then none
    return (.handle handle text, ← behind.endLine?)
  else none

end EndpointTree.Yaml
