import EndpointTree.Declaration.Names
import EndpointTree.Json.Printer

/-!
# Access rules

A rule is `false`, `true`, or an object of requirements. Every other value is
malformed; it is kept as such, with its fault, because it decides its methods
just as a good rule would and compiles to a forbidden entry.
-/

namespace EndpointTree.Declaration

/-- Why a value is no rule, with the value that is at fault. -/
inductive RuleFault where
  | notARule (value : Json)
  | authNotFlag (value : Json)
  | rolesNotNames (value : Json)
  | policiesNotNames (value : Json)
  deriving DecidableEq

/-- The wording of a rule's fault, with the offending value. -/
def RuleFault.message : RuleFault → String
  | .notARule value => s!"expected boolean or object, got {value.text}"
  | .authNotFlag value => s!"requiresAuth must be a boolean, got {value.text}"
  | .rolesNotNames value => s!"requiresRoles must be false or a list of roles, got {value.text}"
  | .policiesNotNames value => s!"policies must be a list of names, got {value.text}"

/-- One access rule as declared. -/
inductive Rule where
  /-- The methods are forbidden. -/
  | deny
  /-- The methods are open to anonymous callers. -/
  | allow
  /-- Requirements; an absent flag asks for authentication. -/
  | require (auth : Option Bool) (roles : Option (List String)) (policies : List String)
  /-- No rule at all. -/
  | malformed (fault : RuleFault)
  deriving DecidableEq

namespace Rule

/-- The flag under `requiresAuth`; `null` counts as absent. -/
def authFlag (members : List (String × Json)) : Except RuleFault (Option Bool) :=
  match members.lookup "requiresAuth" with
  | none | some .null => .ok none
  | some (.bool flag) => .ok (some flag)
  | some other => .error (.authNotFlag other)

/-- The roles under `requiresRoles`; `null` and `false` ask for none. -/
def roleNames (members : List (String × Json)) : Except RuleFault (Option (List String)) :=
  match members.lookup "requiresRoles" with
  | none | some .null | some (.bool false) => .ok none
  | some other => match names? other with
    | some roles => .ok (some roles)
    | none => .error (.rolesNotNames other)

/-- The names under `policies`; `null` counts as an empty list. -/
def policyNames (members : List (String × Json)) : Except RuleFault (List String) :=
  match members.lookup "policies" with
  | none | some .null => .ok []
  | some other => match names? other with
    | some policies => .ok policies
    | none => .error (.policiesNotNames other)

/-- The rule that a set of requirements declares; the first fault decides. -/
def ofMembers (members : List (String × Json)) : Rule :=
  match authFlag members with
  | .error fault => .malformed fault
  | .ok auth => match roleNames members with
    | .error fault => .malformed fault
    | .ok roles => match policyNames members with
      | .error fault => .malformed fault
      | .ok policies => .require auth roles policies

/-- The rule that a value declares. -/
def ofJson : Json → Rule
  | .bool false => .deny
  | .bool true => .allow
  | .object members => ofMembers members
  | other => .malformed (.notARule other)

end Rule

end EndpointTree.Declaration
