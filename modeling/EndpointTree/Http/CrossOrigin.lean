import EndpointTree.Endpoint.CorsOptions
import EndpointTree.Http.Message

/-!
# Cross-origin headers

What an endpoint's cross-origin settings put into its replies. A wildcard cannot
go with credentials: where the settings leave something open, a request with
credentials is answered by what it asked for. Settings that name a wildcard as an
entry of a list cannot be put to use.

* `CrossOrigin.isUsable` says which settings can be put to use.
* `CrossOrigin.decorate` adds the headers to a reply, and `CrossOrigin.preflight`
  answers a preflight.
-/

namespace EndpointTree.Http.CrossOrigin

/-- A value that stands for anything. -/
def star : String := "*"

/-- The origins of a list that can be compared with a header. -/
def validOrigins (origins : List String) : List String :=
  origins.filter fun o => isHeaderValue o.toUTF8.toList

/-- The methods that can be named, in upper case. -/
def validMethods (methods : List String) : List String :=
  (methods.map fun m => String.ofList (m.toList.map upperAscii)).filter fun m =>
    !m.isEmpty && m.toList.all isTokenChar

/-- The header names that are tokens, in lower case. -/
def validNames (names : List String) : List String := names.filterMap headerName?

/-- The value of a list in a header; an empty list has none. -/
def listValue? (items : List String) : Option String :=
  if items.isEmpty then none else some (String.intercalate "," items)

/-- The value that names the methods. -/
def methodsValue? (c : CorsOptions) : Option String := listValue? (validMethods c.methods)

/-- The value that names the headers which scripts may read. -/
def exposedValue? (c : CorsOptions) : Option String := listValue? (validNames c.exposedHeaders)

/-- Whether settings can be put to use. -/
def isUsable (c : CorsOptions) : Bool :=
  let open? := match c.origin with
    | .any => false
    | .list origins => (validOrigins origins).contains star
  let named := (c.allowedHeaders.map validNames).bind listValue?
  !open? && !(c.credentials &&
    (methodsValue? c = some star || named = some star || exposedValue? c = some star))

/-! ## Header fields -/

def field (name : String) (value : Option (List UInt8)) : Headers :=
  (value.map fun v => (name, v)).toList

def textField (name : String) (value : Option String) : Headers :=
  field name (value.map Reply.headerValue)

/-- The origin that is let in. -/
def allowedOrigin (c : CorsOptions) (request : Headers) : Option (List UInt8) :=
  let origin := request.get? "origin"
  match c.origin with
  | .any => if c.credentials then origin else some (Reply.headerValue star)
  | .list origins =>
    origin.filter fun o => ((validOrigins origins).map Reply.headerValue).contains o

/-- The request's headers that a reply hangs on. -/
def varyValue : String :=
  "origin, access-control-request-method, access-control-request-headers"

/-- The fields of every reply. -/
def commonFields (c : CorsOptions) (request : Headers) : Headers :=
  field "access-control-allow-origin" (allowedOrigin c request) ++
    textField "access-control-allow-credentials" (if c.credentials then some "true" else none) ++
    textField "vary" (some varyValue)

/-- The headers that a request may carry. -/
def allowedHeaders (c : CorsOptions) (request : Headers) : Option (List UInt8) :=
  match c.allowedHeaders with
  | some names => (listValue? (validNames names)).map Reply.headerValue
  | none =>
    if c.credentials then request.get? "access-control-request-headers"
    else some (Reply.headerValue star)

/-- Add the fields to a reply that is no answer to a preflight. -/
def decorate (c : CorsOptions) (request : Headers) (r : Reply) : Reply :=
  { r with
    headers := r.headers ++ commonFields c request ++
      textField "access-control-expose-headers" (exposedValue? c) }

/-- Whether a request for options asks for leave to send another request. -/
def isPreflight (request : Headers) : Bool :=
  request.has "origin" && request.has "access-control-request-method"

/-- The answer to a preflight. -/
def preflight (c : CorsOptions) (request : Headers) : Reply where
  status := 200
  headers := commonFields c request ++
    textField "access-control-allow-methods" (methodsValue? c) ++
    field "access-control-allow-headers" (allowedHeaders c request) ++
    textField "access-control-max-age" (c.maxAge.map Nat.repr)

end EndpointTree.Http.CrossOrigin
