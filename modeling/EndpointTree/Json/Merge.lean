import EndpointTree.Json.Value

/-!
# Merging documents

A model is written in fragments, and later fragments are laid over earlier
ones. Lists are joined, and a value that meets a list joins it; objects merge
key by key; anything else gives way to the right side. A `null` member on the
right takes its key away, and a `null` on either side as a whole counts as an
absent fragment.
-/

namespace EndpointTree.Json

/-- Join a value to the front of a list; a list joins item by item. -/
def asItems : Json → List Json
  | .array items => items
  | other => [other]

mutual

/-- Lay the right document over the left one. -/
def merge (left : Json) : (right : Json) → Json
  | .null => left
  | .array items =>
    match left with
    | .null => .array items
    | _ => .array (left.asItems ++ items)
  | .object members =>
    match left with
    | .array items => .array (items ++ [.object members])
    | .object existing => .object (mergeMembers existing members)
    | _ => .object members
  | right =>
    match left with
    | .array items => .array (items ++ [right])
    | _ => right

/-- Lay the members of an object, one after another, over existing members. -/
def mergeMembers (existing : List (String × Json)) : List (String × Json) → List (String × Json)
  | [] => existing
  | (key, value) :: rest =>
    let next :=
      if value.isNull then eraseMember key existing
      else match existing.lookup key with
        | some held => Pairs.put key (merge held value) existing
        | none => existing ++ [(key, value)]
    mergeMembers next rest

end

/-- Lay fragments over one another, from the first to the last. -/
def mergeAll (fragments : List Json) : Json := fragments.foldl merge .null

end EndpointTree.Json
