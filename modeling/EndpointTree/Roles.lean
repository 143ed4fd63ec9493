/-!
# Roles

A requirement either says nothing about roles or lists some; a list asks for at
least one of its roles and an empty list for none.
-/

namespace EndpointTree.Roles

/-- Whether the owned roles meet a list of required ones. -/
def meets (required owned : List String) : Bool :=
  required.isEmpty || required.any fun role => owned.contains role

/-- Whether the owned roles meet a requirement that may say nothing. -/
def satisfies (required : Option (List String)) (owned : List String) : Bool :=
  match required with
  | some required => meets required owned
  | none => true

end EndpointTree.Roles
