import EndpointTree.Dict
import EndpointTree.Http.Form

/-!
# Path patterns

A path pattern is made of characters, parameters and, perhaps, a rest at its end.
A parameter starts with a colon and stands for everything up to the next slash; a
rest starts with a star and stands for everything behind it.

* `PathPattern.ofPath?` reads a pattern.
* `PathPattern.params` decodes what the parameters of a pattern took from a path.
-/

namespace EndpointTree.Http

/-- One part of a path pattern. -/
inductive PathPart where
  | char (c : Char)
  | param (name : String)
  | rest (name : String)
  deriving DecidableEq, Repr

/-- The parts of a path pattern. -/
abbrev PathPattern := List PathPart

namespace PathPattern

/-- Whether a character starts a parameter or a rest. -/
def isMark (c : Char) : Bool := c = ':' || c = '*'

/-- Read the parts of a pattern, at most as many as `steps`. -/
def partsOf? : Nat → List Char → Option PathPattern
  | 0, _ => some []
  | _ + 1, [] => some []
  | steps + 1, c :: rest =>
    if isMark c then
      let name := rest.takeWhile (· ≠ '/')
      let behind := rest.drop name.length
      if name.isEmpty || name.any isMark then none
      else if c = ':' then (partsOf? steps behind).map (.param (String.ofList name) :: ·)
      else if behind.isEmpty then some [.rest (String.ofList name)]
      else none
    else (partsOf? steps rest).map (.char c :: ·)

/-- The names of the parameters and the rest. -/
def names (pattern : PathPattern) : List String :=
  pattern.filterMap fun
    | .char _ => none
    | .param name | .rest name => some name

/-- The most parameters that a pattern may have, its rest aside. -/
def paramLimit : Nat := 25

/-- Whether a part is a parameter. -/
def isParam : PathPart → Bool
  | .param _ => true
  | .char _ | .rest _ => false

/--
The pattern of a path, which starts with a slash; none where a mark is nameless,
second in its segment, or there are too many of them, and where a rest is not last.
-/
def ofPath? (path : String) : Option PathPattern := do
  if !path.startsWith "/" then none
  let pattern ← partsOf? path.toList.length path.toList
  if paramLimit < pattern.countP isParam then none else some pattern

/-- The parameters of a path that matches, decoded; if one of them is no text there are none. -/
def params (groups : List (String × List Char)) : Dict String :=
  match groups.mapM fun (name, taken) => (decodeText? taken).map fun value => (name, value) with
  | some pairs => Dict.ofList pairs
  | none => .empty

end PathPattern

end EndpointTree.Http
