import EndpointTree.Json.Value

/-!
# Lists of names

Handlers, policies and roles are declared as a single name or as a list of
names. A leading `::` in front of a name is an older spelling and is dropped.
-/

namespace EndpointTree.Declaration

/-- A name without a leading double colon. -/
def plainName (name : String) : String :=
  match name.toList with
  | ':' :: ':' :: rest => String.ofList rest
  | _ => name

/-- The names in a list of strings, none if some item is no string. -/
def namesOfItems? : List Json → Option (List String)
  | [] => some []
  | .string name :: rest => (namesOfItems? rest).map (plainName name :: ·)
  | _ :: _ => none

/-- The names that a value declares: one for a string, those of a list of strings. -/
def names? : Json → Option (List String)
  | .string name => some [plainName name]
  | .array items => namesOfItems? items
  | _ => none

end EndpointTree.Declaration
