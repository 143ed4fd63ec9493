import EndpointTree.Handling.Authenticate

/-!
# Tables of access rules

A compiled table has one entry for every method: the method is forbidden, or
there is a requirement for it. Two requirements count as the same when they ask
for the same and list policies of the same names.
-/

namespace EndpointTree

/-- What a caller has to meet. -/
structure Requirement where
  auth : Bool
  roles : Option (List String)
  /-- Everything that runs before a request goes on, in order. -/
  policies : List Policy

namespace Requirement

/-- A requirement with declared policies behind the built-in one. -/
def withPolicies (auth : Bool) (roles : Option (List String)) (declared : List Policy) :
    Requirement :=
  ⟨auth, roles, .builtin :: declared⟩

/-- Anonymous callers are served. -/
def anyone : Requirement := withPolicies false none []

/-- Every authenticated caller is served. -/
def authenticated : Requirement := withPolicies true none []

/-- The names of everything that runs. -/
def policyNames (r : Requirement) : List String := r.policies.map (·.name)

/-- Whether two requirements ask for the same, policies by name. -/
def same (a b : Requirement) : Bool :=
  a.auth == b.auth && a.roles == b.roles && a.policyNames == b.policyNames

end Requirement

/-- One entry of a table. -/
inductive AuthEntry where
  | forbidden
  | required (requirement : Requirement)

namespace AuthEntry

/-- Whether an entry lets nobody in. -/
def isForbidden : AuthEntry → Bool
  | .forbidden => true
  | .required _ => false

/-- Whether two entries are the same, policies by name. -/
def same : AuthEntry → AuthEntry → Bool
  | .forbidden, .forbidden => true
  | .required a, .required b => a.same b
  | _, _ => false

end AuthEntry

/-- An entry for every method. -/
abbrev AuthTable := AccessMethod → AuthEntry

namespace AuthTable

/-- The table at the root: authentication, no roles. -/
def root : AuthTable := fun _ => .required .authenticated

/-- Put an entry in place of those of some methods. -/
def assign (table : AuthTable) (methods : AccessMethod → Bool) (entry : AuthEntry) : AuthTable :=
  fun m => if methods m then entry else table m

/-- The HTTP methods that are not forbidden, in their order. -/
def allowed (table : AuthTable) : List HttpMethod :=
  HttpMethod.all.filter fun m => !(table m).isForbidden

/-- Whether two tables are the same, policies by name. -/
def same (a b : AuthTable) : Bool := AccessMethod.all.all fun m => (a m).same (b m)

end AuthTable

end EndpointTree
