import EndpointTree.Handling.Handler
import EndpointTree.Roles
import EndpointTree.Token.Bearer

/-!
# The built-in policy

One policy is made here and heads every compiled list: it reads the request's own
token and sets the caller's context by it. A refused token only clears the
context; it rejects a request where authentication is required.
-/

namespace EndpointTree.Policy

/-- The context that the request's own token makes. -/
def identify (verifier : Verifier) (headers : Http.Headers) : AuthContext :=
  match Token.bearer headers with
  | .error _ => .anonymous
  | .ok token => match verifier token with
    | .ok claims => .authenticatedBy token claims
    | .error _ => .refused token

/-- The answer to a caller without a valid token. -/
def invalidToken : Stop := .ofError ⟨.unauthorized, "Invalid token"⟩

/-- The answer to a caller without any of the required roles. -/
def missingRole : Stop := .ofError ⟨.unauthorized, "Missing required role"⟩

/-- The check of token and roles. -/
def builtin : Policy where
  name := "authenticate"
  check verifier ctx :=
    let auth := identify verifier ctx.headers
    let next := { ctx with auth }
    if ctx.requiresAuth then
      if !auth.authenticated then (.stop invalidToken, next)
      else if !Roles.satisfies ctx.requiresRoles auth.roles then (.stop missingRole, next)
      else (.proceed (), next)
    else (.proceed (), next)

end EndpointTree.Policy
