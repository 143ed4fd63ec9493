import EndpointTree.Http.RouteTree
import EndpointTree.Http.Upgrade
import EndpointTree.Serving.Application
import EndpointTree.Serving.Dispatch

/-!
# Routes

Every endpoint with something to run has a route of its own. Beside them stand a
report of health, unless an endpoint has its path, and the entrance to the
channels: one for the root, and one for everything below it. An endpoint at the
entrance keeps the methods that the entrance leaves it.

Not every model can be routed: two routes may be at odds, which may hang on their
order, a path may be no pattern, and cross-origin settings may be of no use.

* `Application.routes?` makes the table of routes.
* `Application.answer` answers a request.
-/

namespace EndpointTree.Serving

/-- What a route leads to. -/
inductive Destination where
  | endpoint (e : Endpoint)
  | health
  /-- The entrance to the channels, and an endpoint at the same path. -/
  | channels (beside : Option Endpoint)

/-- What a request is answered with. -/
inductive Answer where
  | reply (r : Http.Reply)
  /-- The connection becomes a socket of a namespace. -/
  | socket (namespaceText : String) (query : Dict String)

/-- The routes of an application: what their paths lead to, and the tree of their patterns. -/
structure RouteTable where
  destinations : List (String × Destination) := []
  /-- The path of each route with the names of its parameters. -/
  tree : Http.RouteTree (String × List String) := .empty

def healthPath : String := "/health"

def version : String := "0.1.0"

/-- What two routes of one path lead to together; most are at odds. -/
def Destination.join? : Destination → Destination → Option Destination
  | .endpoint e, .channels none => some (.channels (some e))
  | _, _ => none

namespace RouteTable

/-- Add a route, if it is not at odds with those in the table. -/
def add? (table : RouteTable) (path : String) (destination : Destination) : Option RouteTable :=
  match table.destinations.lookup path with
  | some earlier => do
    let joined ← earlier.join? destination
    return { table with destinations := Pairs.put path joined table.destinations }
  | none => do
    let pattern ← Http.PathPattern.ofPath? path
    let tree ← table.tree.insert? pattern (path, pattern.names)
    return { destinations := Pairs.put path destination table.destinations, tree }

/-- What a path leads to, with what its parameters took under their names. -/
def find? (table : RouteTable) (path : List Char) :
    Option (Destination × List (String × List Char)) := do
  let ((route, names), taken) ← table.tree.find? path
  return (← table.destinations.lookup route, names.zip taken)

end RouteTable

namespace Application

/-- The endpoints that have something to run. -/
def served (app : Application) : List Endpoint :=
  app.model.values.filter fun e => !e.servedMethods.isEmpty

/-- The entrance to the channels. -/
def mount (app : Application) : String :=
  String.ofList (Path.trimEnd app.settings.mountPath.toList)

/-- Whether an endpoint's cross-origin settings can be applied. -/
def canApply (app : Application) (e : Endpoint) : Bool :=
  !app.settings.corsEnabled || Http.CrossOrigin.isUsable e.cors

/-- The routes in the order in which they are added. -/
def routes (app : Application) : List (String × Destination) :=
  let health := if (app.model.find? healthPath).isSome then [] else [(healthPath, .health)]
  let entrance :=
    if app.channels.isSome then
      [(app.mount, .channels none), (app.mount ++ "/*namespace", .channels none)]
    else []
  app.served.map (fun e => (e.path, .endpoint e)) ++ health ++ entrance

/-- The table of routes; none where there can be none. -/
def routes? (app : Application) : Option RouteTable :=
  if app.served.all app.canApply then
    app.routes.foldlM (fun table (path, destination) => table.add? path destination) {}
  else none

/-! ## Answers -/

def notFound : Http.Reply := .ofError ⟨.notFound, "Endpoint not found"⟩

/-- The reply to a method that a fixed route does not know. -/
def fixedNotAllowed : Http.Reply := (Http.Reply.bare 405).withHeader "allow" "GET,HEAD"

/-- The report of health at a time. -/
def healthReport (now : String) : Http.Reply :=
  .json 200 (Http.Reply.envelope (.object
    [("status", .string "ok"), ("timestamp", .string now), ("version", .string version)]))

def headOnly (r : Http.Reply) : Http.Reply := { r with body := "" }

/-- The reply to a body that is too large. -/
def tooLarge : Http.Reply :=
  .plain 413 "Failed to buffer the request body: length limit exceeded"

/-- Answer a request to an endpoint; options carry no cross-origin headers but a preflight's. -/
def answerEndpoint (app : Application) (e : Endpoint) (params query : Dict String)
    (request : Http.Request) (store : Store) : Http.Reply × Store :=
  let (reply, store) :=
    if app.settings.maxRequestBytes < request.body.size then (tooLarge, store)
    else dispatch app.verifier app.settings.corsEnabled e
      { method := request.method, params, query, headers := request.headers
        body := request.body } store
  if app.settings.corsEnabled && request.method ≠ HttpMethod.options.name then
    (Http.CrossOrigin.decorate e.cors request.headers reply, store)
  else (reply, store)

/-- The namespace that the only parameter of a path names. -/
def namespaceOf (groups : List (String × List Char)) : String :=
  match groups with
  | [(_, rest)] => "/" ++ (Http.decodeText? rest).getD ""
  | _ => "/"

/-- Answer a request at the entrance to the channels. -/
def answerEntrance (groups : List (String × List Char)) (query : Dict String)
    (request : Http.Request) : Answer :=
  match Http.Upgrade.fault? request with
  | none => .socket (namespaceOf groups) query
  | some fault =>
    let refusal := Http.Upgrade.refusal fault
    .reply (if request.method = HttpMethod.head.name then headOnly refusal else refusal)

/-- Whether a method is one that a fixed route knows. -/
def isFixedMethod (method : String) : Bool :=
  method = HttpMethod.get.name || method = HttpMethod.head.name

/-- Answer a request at a time. -/
def answer (app : Application) (table : RouteTable) (now : String) (request : Http.Request)
    (store : Store) : Answer × Store :=
  let query := Http.queryOf request.target.query
  match table.find? request.target.path with
  | none => (.reply notFound, store)
  | some (destination, groups) =>
    let params := Http.PathPattern.params groups
    match destination with
    | .endpoint e =>
      let (reply, store) := app.answerEndpoint e params query request store
      (.reply reply, store)
    | .health =>
      let reply :=
        if request.method = HttpMethod.get.name then healthReport now
        else if request.method = HttpMethod.head.name then headOnly (healthReport now)
        else fixedNotAllowed
      (.reply reply, store)
    | .channels beside =>
      if isFixedMethod request.method then (answerEntrance groups query request, store)
      else match beside with
        | some e =>
          let (reply, store) := app.answerEndpoint e params query request store
          (.reply reply, store)
        | none => (.reply fixedNotAllowed, store)

end Application

end EndpointTree.Serving
