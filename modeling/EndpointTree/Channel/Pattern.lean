import EndpointTree.Dict
import EndpointTree.Path

/-!
# Patterns of channel paths

The path of an endpoint is turned into an anchored pattern: a segment with a
leading colon is a group that takes any filled text without a slash, and every
other character stands for itself. A namespace is tidied before it is matched:
slashes at its end go, and one leads it.

* `Pattern.ofPath` makes the pattern of a path, `Pattern.text` writes it as a
  regular expression.
* `Pattern.groups?` matches a text and gives what the groups took.
-/

namespace EndpointTree.Channel

/-- One part of a pattern. -/
inductive PatternPart where
  /-- A character that stands for itself. -/
  | char (c : Char)
  /-- A filled run of characters other than the slash. -/
  | group
  deriving DecidableEq, Repr

/-- The parts of a pattern, and the names of its groups. -/
structure Pattern where
  parts : List PatternPart
  names : List String
  deriving DecidableEq, Repr

namespace Pattern

/-- The name of a segment that is a parameter. -/
def paramName? : List Char → Option String
  | ':' :: name => some (String.ofList name)
  | _ => none

/-- The parts of a segment behind its slash. -/
def segmentParts (segment : List Char) : List PatternPart :=
  match paramName? segment with
  | some _ => [.group]
  | none => segment.map .char

/-- The pattern of a path; a path without segments matches the bare slash. -/
def ofPath (path : String) : Pattern :=
  let segments := Path.segments path.toList
  { parts := if segments.isEmpty then [.char '/']
      else segments.flatMap fun s => .char '/' :: segmentParts s
    names := segments.filterMap paramName? }

/-- The characters that a regular expression gives a meaning of its own. -/
def metaChars : List Char :=
  ['\\', '.', '+', '*', '?', '(', ')', '|', '[', ']', '\x7b', '\x7d', '^', '$', '#', '&', '-', '~']

/-- A part as it stands in a regular expression. -/
def partText : PatternPart → List Char
  | .char c => if metaChars.contains c then ['\\', c] else [c]
  | .group => "([^/]+)".toList

/-- The pattern as an anchored regular expression. -/
def text (p : Pattern) : String :=
  String.ofList ('^' :: p.parts.flatMap partText ++ ['$'])

/-- Whether a character belongs to a group's run. -/
def inGroup (c : Char) : Bool := c ≠ '/'

/-- Match a whole text; a group takes the longest run that it can. -/
def groups? : List PatternPart → List Char → Option (List (List Char))
  | [], [] => some []
  | [], _ :: _ => none
  | .char _ :: _, [] => none
  | .char c :: parts, d :: rest => if c = d then groups? parts rest else none
  | .group :: parts, rest =>
    let run := rest.takeWhile inGroup
    if run.isEmpty then none
    else (groups? parts (rest.dropWhile inGroup)).map (run :: ·)

/-- The parameters of a text that matches; of two with one name the last counts. -/
def params? (p : Pattern) (text : List Char) : Option (Dict String) :=
  (groups? p.parts text).map fun groups => Dict.ofList (p.names.zip (groups.map String.ofList))

end Pattern

/-- A namespace without slashes at its end and with one in front. -/
def tidyNamespace (namespaceText : String) : List Char :=
  match Path.trimEnd namespaceText.toList with
  | [] => ['/']
  | '/' :: rest => '/' :: rest
  | other => '/' :: other

end EndpointTree.Channel
