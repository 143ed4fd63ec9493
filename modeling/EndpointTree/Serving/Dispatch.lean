import EndpointTree.Chain
import EndpointTree.Http.CrossOrigin
import EndpointTree.Json.Parser
import EndpointTree.Redaction

/-!
# Dispatching a request to an endpoint

The order of the checks is fixed: a name that is no served method, a preflight, a
forbidden method, a method with nothing to run, a body that is no JSON, the gate.
They make a plan, which is an answer or a run of the chain, and look neither at
the store nor at what a handler would do. A write's input loses the fields that
the caller may not write before any handler sees it, and a read's output those
that the caller may not read after every handler is through.

* `plan` makes the checks and `perform` does what they say.
* `dispatch` answers a request and gives the store after it.
-/

namespace EndpointTree.Serving

/-- What a request to an endpoint brings along. -/
structure Call where
  /-- The name of the method, which may be one that is not served. -/
  method : String
  params : Dict String := .empty
  query : Dict String := .empty
  headers : Http.Headers := []
  body : ByteArray := .empty

/-- The methods that are allowed and have something to run; options are always answered. -/
def servable (e : Endpoint) : List HttpMethod :=
  e.access.allowed.filter fun m => m = .options || !(e.chain m).isEmpty

/-- The input of a body; nothing stands for `null`. -/
def inputOf (body : ByteArray) : Except Json.Fault Json :=
  if body.isEmpty then .ok .null else Json.parse body

/-- The error of a body that is no JSON. -/
def invalidBody (fault : Json.Fault) : ApiError :=
  ⟨.invalidJson, s!"Invalid JSON body: {fault.message}"⟩

/-- What the gate is asked about a call. -/
def gateRequest (e : Endpoint) (m : HttpMethod) (call : Call) : Gate.Request where
  method := m
  path := e.path
  params := call.params
  query := call.query
  headers := call.headers

/-- The exchange in which the chain of an authorized call starts. -/
def exchange (e : Endpoint) (m : HttpMethod) (call : Call) (auth : AuthContext) (store : Store) :
    Exchange where
  method := m
  path := e.path
  params := call.params
  query := call.query
  headers := call.headers
  auth
  collection := e.collection
  store

/-- What is to be done about a call. -/
inductive Plan where
  /-- It is answered, and nothing runs. -/
  | answer (reply : Http.Reply)
  /-- The chain runs on an input, on behalf of a caller. -/
  | run (m : HttpMethod) (auth : AuthContext) (input : Json)
  deriving DecidableEq

/-! ## Checks -/

/-- Ask the gate about a call. -/
def planGate (verifier : Verifier) (e : Endpoint) (m : HttpMethod) (call : Call) (input : Json) :
    Plan :=
  match Gate.authorize verifier e.access (gateRequest e m call) with
  | .authorized auth => .run m auth input
  | .notAllowed allow => .answer (.methodNotAllowed allow)
  | .rejected stop => .answer (.ofStop stop)

/-- Check a call of a served method. -/
def planMethod (verifier : Verifier) (e : Endpoint) (m : HttpMethod) (call : Call) : Plan :=
  if (e.access m).isForbidden then .answer (.methodNotAllowed e.access.allowed)
  else if (e.chain m).isEmpty then
    if m = .options then .answer (.bare Http.Reply.noContent)
    else .answer (.methodNotAllowed (servable e))
  else match inputOf call.body with
    | .error fault => .answer (.ofError (invalidBody fault))
    | .ok input => planGate verifier e m call input

/-- Check a call; `crossOrigin` says whether preflights are answered. -/
def plan (verifier : Verifier) (crossOrigin : Bool) (e : Endpoint) (call : Call) : Plan :=
  match HttpMethod.ofName? call.method with
  | none => .answer (.methodNotAllowed e.access.allowed)
  | some m =>
    if m = .options && crossOrigin && Http.CrossOrigin.isPreflight call.headers then
      .answer (Http.CrossOrigin.preflight e.cors call.headers)
    else planMethod verifier e m call

/-! ## Runs -/

/-- The input without what the caller may not write. -/
def cleanInput (e : Endpoint) (m : HttpMethod) (auth : AuthContext) (input : Json) : Json :=
  if m.isRead then input else (Redaction.redact input e.fields m auth).1

/-- The output without what the caller may not read. -/
def cleanOutput (e : Endpoint) (m : HttpMethod) (auth : AuthContext) (output : Json) : Json :=
  if m.isRead then (Redaction.redact output e.fields m auth).1 else output

/-- The reply to what a chain ended with. -/
def conclude (e : Endpoint) (m : HttpMethod) : Chain.Outcome × Exchange → Http.Reply
  | (.completed output, x) => .ofData (x.status.getD 200) (cleanOutput e m x.auth output)
  | (.stopped stop, _) => .ofStop stop

/-- Run the chain of an authorized call. -/
def runChain (e : Endpoint) (m : HttpMethod) (call : Call) (auth : AuthContext) (input : Json)
    (store : Store) : Http.Reply × Store :=
  let result := Chain.run (e.chain m) (cleanInput e m auth input) (exchange e m call auth store)
  (conclude e m result, result.2.store)

/-- Do what a plan says. -/
def perform (e : Endpoint) (call : Call) (store : Store) : Plan → Http.Reply × Store
  | .answer reply => (reply, store)
  | .run m auth input => runChain e m call auth input store

/-- Answer a call. -/
def dispatch (verifier : Verifier) (crossOrigin : Bool) (e : Endpoint) (call : Call)
    (store : Store) : Http.Reply × Store :=
  perform e call store (plan verifier crossOrigin e call)

end EndpointTree.Serving
