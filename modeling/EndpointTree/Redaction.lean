import EndpointTree.Gate

/-!
# Redaction

A field that its table denies to the caller is removed from an object, from the
objects of a list at any depth of lists, and from the `documents` of a page.
Nothing else changes, and the order of what is left stays.

* `Redaction.redact` removes what is denied and reports the names.
-/

namespace EndpointTree.Redaction

/-- Whether a table admits the caller for a method; policies are not run. -/
def fieldAllowed (table : AuthTable) (m : AccessMethod) (auth : AuthContext) : Bool :=
  match table m with
  | .forbidden => false
  | .required r => r.admits auth

/-- The fields that are denied to the caller. -/
def deniedFields (fields : List (String × AuthTable)) (m : AccessMethod) (auth : AuthContext) :
    List String :=
  (fields.filter fun f => !fieldAllowed f.2 m auth).map (·.1)

mutual

def strip (denied : List String) : Json → Json
  | .array items => .array (stripItems denied items)
  | .object members => .object (stripMembers denied members)
  | other => other

def stripItems (denied : List String) : List Json → List Json
  | [] => []
  | x :: rest => strip denied x :: stripItems denied rest

/-- The members that are not denied; the list of a page is stripped as well. -/
def stripMembers (denied : List String) : List (String × Json) → List (String × Json)
  | [] => []
  | (key, value) :: rest =>
    if denied.contains key then stripMembers denied rest
    else if key = "documents" ∧ value.items?.isSome then
      (key, strip denied value) :: stripMembers denied rest
    else (key, value) :: stripMembers denied rest

end

mutual

/-- The denied fields that a value holds where they are removed, with repetitions. -/
def found (denied : List String) : Json → List String
  | .array items => foundItems denied items
  | .object members => foundMembers denied members
  | _ => []

def foundItems (denied : List String) : List Json → List String
  | [] => []
  | x :: rest => found denied x ++ foundItems denied rest

/-- The denied fields of members and of the list of a page. -/
def foundMembers (denied : List String) : List (String × Json) → List String
  | [] => []
  | (key, value) :: rest =>
    if denied.contains key then key :: foundMembers denied rest
    else if key = "documents" ∧ value.items?.isSome then
      found denied value ++ foundMembers denied rest
    else foundMembers denied rest

end

/-- Names in ascending order, each once. -/
def sortedNames (names : List String) : List String :=
  (Dict.ofList (names.map fun n => (n, ()))).keys

/-- Remove what is denied, and report the names of what was there. -/
def redact (value : Json) (fields : List (String × AuthTable)) (m : AccessMethod)
    (auth : AuthContext) : Json × List String :=
  let denied := deniedFields fields m auth
  (strip denied value, sortedNames (found denied value))

end EndpointTree.Redaction
