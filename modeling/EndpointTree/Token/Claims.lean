import EndpointTree.Json.Parser

/-!
# Claims

A token carries claims: a subject, roles, a time of expiry and a time of issue,
and any further members, which ride along for handlers. Roles are always
written; the other three only where they are present.

* `Claims.ofMembers` reads claims from the members of a document, repeated keys
  included, since a repeated known claim makes a token unreadable.
-/

namespace EndpointTree

/-- What a token says of its bearer, with times in seconds since 1970. -/
structure Claims where
  subject : Option String := none
  roles : List String := []
  expiry : Option Int64 := none
  issued : Option Int64 := none
  extra : List (String × Json) := []
  deriving DecidableEq

namespace Claims

/-- The keys of the claims that have a field of their own. -/
def knownKeys : List String := ["sub", "roles", "exp", "iat"]

/-- A time as it is written in a token. -/
def timeJson (t : Int64) : Json := .number (.ofInt t.toInt)

/-- The members of a token in the order of writing, those of handlers last. -/
def toMembers (c : Claims) : List (String × Json) :=
  (c.subject.map fun s => ("sub", Json.string s)).toList ++
    ("roles", Json.strings c.roles) ::
    (c.expiry.map fun t => ("exp", timeJson t)).toList ++
    (c.issued.map fun t => ("iat", timeJson t)).toList ++ c.extra

/-- The claims as one object. -/
def toJson (c : Claims) : Json := .object c.toMembers

/-- A string or nothing. -/
def readSubject : Json → Option (Option String)
  | .null => some none
  | .string s => some (some s)
  | _ => none

/-- A list of strings. -/
def readRoles : Json → Option (List String)
  | .array items => items.mapM Json.string?
  | _ => none

/-- The first integer past the signed 64-bit ones, 2^63. -/
abbrev timeLimit : Int := 9223372036854775808

/-- A signed 64-bit integer or nothing. -/
def readTime : Json → Option (Option Int64)
  | .null => some none
  | .number (.integer value _) => if value < timeLimit then some (some (.ofInt value)) else none
  | _ => none

/-- The value of the only member under `key`; none if the key is repeated. -/
def single (key : String) (members : List (String × Json)) : Option (Option Json) :=
  match members.filter fun m => m.1 = key with
  | [] => some none
  | [(_, value)] => some (some value)
  | _ => none

/-- Read an optional claim, with what stands for an absent one. -/
def readClaim {α : Type} (key : String) (absent : α) (read : Json → Option α)
    (members : List (String × Json)) : Option α :=
  match single key members with
  | none => none
  | some none => some absent
  | some (some value) => read value

/-- The claims that members spell out; none where a known claim is repeated or ill typed. -/
def ofMembers (members : List (String × Json)) : Option Claims := do
  let subject ← readClaim "sub" none readSubject members
  let roles ← readClaim "roles" [] readRoles members
  let expiry ← readClaim "exp" none readTime members
  let issued ← readClaim "iat" none readTime members
  let further := members.filter fun m => !knownKeys.contains m.1
  return ⟨subject, roles, expiry, issued, Json.distinctMembers (Json.settledMembers further)⟩

/-- The claims of a document; none where it is no object. -/
def ofJson? : Json → Option Claims
  | .object members => ofMembers members
  | _ => none

end Claims

end EndpointTree
