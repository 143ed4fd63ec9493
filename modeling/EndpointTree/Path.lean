/-!
# Paths

A path is text with `/` between its segments. Joining a child's key to its
parent's path never doubles the separator, and the segments of a path are the
non-empty pieces between slashes.
-/

namespace EndpointTree.Path

def trimEnd (path : List Char) : List Char := (path.reverse.dropWhile (· = '/')).reverse

/-- The path of a child: the root adds nothing, other parents lose trailing slashes. -/
def join (parent key : String) : String :=
  if parent = "" ∨ parent = "/" then key
  else String.ofList (trimEnd parent.toList ++ key.toList)

/-- The pieces between slashes, empty ones included. -/
def pieces : List Char → List (List Char)
  | [] => [[]]
  | c :: rest =>
    if c = '/' then [] :: pieces rest
    else match pieces rest with
      | [] => [[c]]
      | piece :: more => (c :: piece) :: more

/-- The non-empty pieces between slashes. -/
def segments (path : List Char) : List (List Char) := (pieces path).filter fun p => !p.isEmpty

def isChildKey (key : String) : Bool := key.toList.head? = some '/'

end EndpointTree.Path
