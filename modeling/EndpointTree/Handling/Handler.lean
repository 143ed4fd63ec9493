import EndpointTree.ApiError
import EndpointTree.AuthContext
import EndpointTree.Http.Headers
import EndpointTree.Method
import EndpointTree.Token.Signed

/-!
# Handlers and policies

The steps of an answer are code from outside: a handler turns data into data and
may change the exchange, a policy looks at a request and may change what is known
about the caller. Both are arbitrary functions here. A step goes on, stops with an
answer, returns an error or breaks down; what it changed before that remains.
-/

namespace EndpointTree

inductive HandlerFault where
  | store (fault : StoreFault)
  | noCollection (path : String)
  | described (text : String)
  deriving DecidableEq

def HandlerFault.message : HandlerFault → String
  | .store fault => s!"storage error: {fault.message}"
  | .noCollection path => s!"no collection bound to endpoint '{path}'"
  | .described text => text

/-- How a step ended. -/
inductive Step (α : Type) where
  | proceed (value : α)
  | stop (stop : Stop)
  | fail (fault : HandlerFault)
  | panic
  deriving DecidableEq

/-- What the steps of a handler chain see and may change. -/
structure Exchange where
  method : HttpMethod
  /-- The path of the endpoint, parameters by name. -/
  path : String
  params : Dict String
  query : Dict String
  headers : Http.Headers
  auth : AuthContext
  collection : Option String
  store : Store
  /-- The status of a completed chain, if a step has chosen one. -/
  status : Option Nat := none

/-- A step of a handler chain. -/
abbrev Handler := Json → Exchange → Step Json × Exchange

/-- A handler with the name under which it was declared. -/
structure NamedHandler where
  name : String
  run : Handler

/-- What policies see of a request, and the caller's context that they may change. -/
structure PolicyContext where
  method : HttpMethod
  path : String
  params : Dict String
  query : Dict String
  headers : Http.Headers
  requiresAuth : Bool
  requiresRoles : Option (List String)
  auth : AuthContext := .anonymous

/-- A named authorization step; it may verify tokens of its own. -/
structure Policy where
  name : String
  check : Verifier → PolicyContext → Step Unit × PolicyContext

end EndpointTree
