import EndpointTree.Declaration.Rule
import EndpointTree.Method

/-!
# Access declarations

The value under a node's `auth` key declares rules for scopes of methods and,
under `fields`, declarations of the same form for single fields of a record. The
keys of a requirement may stand directly in the object and then form one rule
for all methods. A key that names no scope is ignored.
-/

namespace EndpointTree.Declaration

/-- The methods that a rule is declared for. -/
inductive Scope where
  | common
  | read
  | write
  | method (m : AccessMethod)
  deriving DecidableEq, Repr

/-- The scope of a declaration key. -/
def Scope.ofKey? (key : String) : Option Scope :=
  if key = "read" then some .read
  else if key = "write" then some .write
  else (AccessMethod.ofName? key).map .method

/-- Rules by scope, and declarations of fields. -/
structure Access where
  rules : List (Scope × Rule) := []
  fields : List (String × Access) := []

instance : Inhabited Access := ⟨{}⟩

namespace Access

/-- The keys that form a rule for all methods. -/
def commonKeys : List String := ["requiresAuth", "requiresRoles", "policies"]

/-- The rules of an object, that for all methods first. -/
def rulesOf (members : List (String × Json)) : List (Scope × Rule) :=
  let common := members.filter fun m => commonKeys.contains m.1
  (if common.isEmpty then [] else [(.common, Rule.ofMembers common)]) ++
    members.filterMap fun m => (Scope.ofKey? m.1).map fun scope => (scope, Rule.ofJson m.2)

mutual

/-- The declaration of a value; one that is no object is a rule for all methods. -/
def ofJson : Json → Access
  | .object members => ⟨rulesOf members, fieldsIn members⟩
  | other => ⟨[(.common, Rule.ofJson other)], []⟩

/-- The field declarations of an object. -/
def fieldsIn : List (String × Json) → List (String × Access)
  | [] => []
  | (key, value) :: rest =>
    (if key = "fields" then fieldsOf value else []) ++ fieldsIn rest

/-- The declarations under `fields`; a value that is no object declares none. -/
def fieldsOf : Json → List (String × Access)
  | .object members => fieldList members
  | _ => []

/-- Each field with what is declared under its name. -/
def fieldList : List (String × Json) → List (String × Access)
  | [] => []
  | (name, value) :: rest => (name, ofJson value) :: fieldList rest

end

end Access

end EndpointTree.Declaration
