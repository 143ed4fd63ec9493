import EndpointTree.Endpoint.AuthTable

/-!
# The gate

Before a handler runs, the gate checks that the method is not forbidden and runs
the policies of its requirement in order, each on the context that the one before
it left. The first policy that does not go on ends the run.

* `Gate.authorize` decides a request.
-/

namespace EndpointTree

namespace Requirement

/-- Whether a caller's context meets the requirement; policies are not looked at. -/
def admits (r : Requirement) (auth : AuthContext) : Bool :=
  !r.auth || (auth.authenticated && Roles.satisfies r.roles auth.roles)

end Requirement

namespace Gate

/-- Run policies on a context that each may change; an error or a breakdown is a bare 500. -/
def runPolicies (verifier : Verifier) : List Policy → PolicyContext → Except Stop AuthContext
  | [], ctx => .ok ctx.auth
  | policy :: rest, ctx =>
    match policy.check verifier ctx with
    | (.proceed (), next) => runPolicies verifier rest next
    | (.stop stop, _) => .error stop
    | (.fail _, _) => .error .internal
    | (.panic, _) => .error .internal

structure Request where
  method : HttpMethod
  path : String
  params : Dict String
  query : Dict String
  headers : Http.Headers

inductive Decision where
  | authorized (auth : AuthContext)
  | notAllowed (allow : List HttpMethod)
  | rejected (stop : Stop)
  deriving DecidableEq

/-- The context in which the policies of a requirement start. -/
def startContext (r : Requirement) (request : Request) : PolicyContext where
  method := request.method
  path := request.path
  params := request.params
  query := request.query
  headers := request.headers
  requiresAuth := r.auth
  requiresRoles := r.roles

/-- Decide a request against a table. -/
def authorize (verifier : Verifier) (table : AuthTable) (request : Request) : Decision :=
  match table request.method with
  | .forbidden => .notAllowed table.allowed
  | .required r =>
    match runPolicies verifier r.policies (startContext r request) with
    | .ok auth => .authorized auth
    | .error stop => .rejected stop

end Gate

end EndpointTree
