import EndpointTree.ApiError
import EndpointTree.Http.Headers
import EndpointTree.Http.Target
import EndpointTree.Method

/-!
# Requests and replies

A request has any method name, a target, header fields and a body of bytes. A
reply has a status, header fields and a body of text. Bodies are JSON wherever
there is something to say; a status that stands alone comes without a body and
without a media type.
-/

namespace EndpointTree.Http

/-- A request as it reaches the server. -/
structure Request where
  /-- The name of the method, which may be one that is not served. -/
  method : String
  target : Target
  headers : Headers := []
  body : ByteArray := .empty
  /-- Whether the connection can be taken over by another protocol. -/
  upgradable : Bool := false

/-- A reply as it leaves the server. -/
structure Reply where
  status : Nat
  headers : Headers := []
  body : String := ""
  deriving DecidableEq

namespace Reply

/-- The bytes of a header field's text. -/
def headerValue (text : String) : List UInt8 := text.toUTF8.toList

/-- Put a header field in front. -/
def withHeader (r : Reply) (name value : String) : Reply :=
  { r with headers := (name, headerValue value) :: r.headers }

/-- A status that stands alone. -/
def bare (status : Nat) : Reply := { status }

/-- A reply whose body is of the named type. -/
def media (status : Nat) (mediaType body : String) : Reply :=
  { status, headers := [("content-type", headerValue mediaType)], body }

/-- A reply whose body is a document, in its shortest form. -/
def json (status : Nat) (body : Json) : Reply := media status jsonMedia body.text

/-- A reply whose body is text. -/
def plain (status : Nat) (body : String) : Reply := media status textMedia body

/-- An error that the client sees. -/
def ofError (e : ApiError) : Reply := json e.status e.toJson

/-- An early exit; its body is the payload as it is. -/
def ofStop (s : Stop) : Reply :=
  match s.payload with
  | some payload => json s.status payload
  | none => bare s.status

/-- The envelope of what a completed chain returned. -/
def envelope (data : Json) : Json := .object [("success", .bool true), ("data", data)]

/-- The status that goes without a body. -/
def noContent : Nat := 204

/-- What a completed chain returned, under a status. -/
def ofData (status : Nat) (data : Json) : Reply :=
  if status = noContent then bare noContent else json status (envelope data)

/-- The refusal of a method, with the methods that are served instead. -/
def methodNotAllowed (allow : List HttpMethod) : Reply :=
  (ofError ⟨.methodNotAllowed, "Method not allowed"⟩).withHeader "allow"
    (String.intercalate ", " (allow.map (·.name)))

end Reply

end EndpointTree.Http
