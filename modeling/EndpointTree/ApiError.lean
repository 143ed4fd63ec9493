import EndpointTree.Store.Basic

/-!
# Errors in answers

An error that a client sees has a kind, which fixes the status and the code, and
a message.
-/

namespace EndpointTree

/-- The kinds of errors that a client sees. -/
inductive ApiErrorKind where
  | badRequest
  | invalidJson
  | unauthorized
  | notFound
  | methodNotAllowed
  | internal
  | unavailable
  deriving DecidableEq, Repr

structure ApiError where
  kind : ApiErrorKind
  message : String
  deriving DecidableEq, Repr

namespace ApiError

def status (e : ApiError) : Nat :=
  match e.kind with
  | .badRequest | .invalidJson => 400
  | .unauthorized => 401
  | .notFound => 404
  | .methodNotAllowed => 405
  | .internal => 500
  | .unavailable => 503

/-- The code by which clients tell errors apart. -/
def code (e : ApiError) : String :=
  match e.kind with
  | .badRequest => "BAD_REQUEST"
  | .invalidJson => "INVALID_JSON"
  | .unauthorized => "UNAUTHORIZED"
  | .notFound => "NOT_FOUND"
  | .methodNotAllowed => "METHOD_NOT_ALLOWED"
  | .internal => "INTERNAL_SERVER_ERROR"
  | .unavailable => "SERVICE_UNAVAILABLE"

def toJson (e : ApiError) : Json :=
  .object [("error", .bool true), ("message", .string e.message), ("code", .string e.code)]

/-- What a client sees of a store's fault; a backend's text stays inside. -/
def ofStoreFault : StoreFault → ApiError
  | .notFound collection id => ⟨.notFound, StoreFault.message (.notFound collection id)⟩
  | .invalidData fault => ⟨.badRequest, fault.message⟩
  | .invalidQuery fault => ⟨.badRequest, fault.message⟩
  | .backend _ => ⟨.badRequest, "Storage operation failed"⟩

end ApiError

/-- An early exit with a status and, possibly, a body. -/
structure Stop where
  status : Nat
  payload : Option Json
  deriving DecidableEq

namespace Stop

/-- The exit of a step that failed or broke down. -/
def internal : Stop := ⟨500, none⟩

def ofError (e : ApiError) : Stop := ⟨e.status, some e.toJson⟩

end Stop

end EndpointTree
