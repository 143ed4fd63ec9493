import EndpointTree.Chain
import EndpointTree.Channel.Table
import EndpointTree.Json.Printer

/-!
# Reports

A report says what a model serves, as lines for a reader or as a document. Text
is set in columns, which a longer text pushes to the right.

* `Report.nodes` and `Report.nodesJson` list the endpoints with their access.
* `Report.routes` and `Report.routesJson` list what is routed to them.
-/

namespace EndpointTree.CommandLine.Report

/-- Lines, each with its break. -/
def lines (ls : List String) : String := String.join (ls.map (· ++ "\n"))

/-- A text filled up with blanks to a width. -/
def padded (width : Nat) (s : String) : String := s.pushn ' ' (width - s.length)

/-- A document with the marks of success in front. -/
def success (message : String) (members : List (String × Json)) : String :=
  (Json.object (("success", .bool true) :: ("message", .string message) :: members)).pretty ++ "\n"

/-! ## Endpoints -/

/-- An entry of an access table in words; the check that is always made is not named. -/
def entryText : AuthEntry → String
  | .forbidden => "forbidden"
  | .required r =>
    let roles := match r.roles with
      | some roles => " roles=" ++ String.intercalate "," roles
      | none => ""
    let declared := r.policyNames.drop 1
    let policies := if declared.isEmpty then ""
      else " policies=" ++ String.intercalate "," declared
    (if r.auth then "auth" else "open") ++ roles ++ policies

/-- The lines on one endpoint. -/
def nodeLines (e : Endpoint) : List String :=
  e.path ::
    AccessMethod.all.map (fun m => "    " ++ padded 8 m.name ++ " " ++ entryText (e.access m)) ++
    e.fields.map fun field => "    field    " ++ field.1

/-- Whether a model has channels, in a word. -/
def realtimeWord (m : Model) : String := if m.hasRealtime then "on" else "off"

/-- The endpoints of a model, parents first, and a line on the whole. -/
def nodes (m : Model) : String :=
  lines (m.values.flatMap nodeLines ++
    [s!"✓ Compiled {m.values.length} nodes (real-time {realtimeWord m})"])

/-- An endpoint as a document. -/
def nodeJson (e : Endpoint) : Json :=
  .object
    [("path", .string e.path),
     ("auth", .object (AccessMethod.all.map fun m => (m.name, .string (entryText (e.access m))))),
     ("fields", .strings (e.fields.map (·.1))),
     ("methods", .strings (e.servedMethods.map (·.name))),
     ("collection", (e.collection.map Json.string).getD .null),
     ("realTime", .bool (!e.channel.isEmpty))]

/-- The endpoints of a model as a document. -/
def nodesJson (m : Model) : String :=
  success "Model compiled"
    [("hasRealtime", .bool m.hasRealtime), ("nodes", .array (m.values.map nodeJson))]

/-! ## Routes -/

/-- Every served method with its endpoint and the names of its steps. -/
def served (m : Model) : List (HttpMethod × Endpoint × List String) :=
  m.values.flatMap fun e =>
    e.servedMethods.map fun method => (method, e, Chain.names (e.chain method))

/-- The line of a served method. -/
def servedLine (method : HttpMethod) (e : Endpoint) (steps : List String) : String :=
  "  " ++ padded 8 method.name ++ " " ++ padded 32 e.path ++ " " ++ String.intercalate " -> " steps

/-- The line of a channel. -/
def channelLine (r : Channel.Route) : String :=
  "  " ++ padded 41 r.path ++ " " ++ r.pattern.text ++
    (if r.access.isForbidden then " (disabled)" else "")

/-- What a model serves, HTTP first. -/
def routes (m : Model) : String :=
  lines ("HTTP" :: (served m).map (fun (method, e, steps) => servedLine method e steps) ++
    "Real-time" :: (Channel.tableOf m).map channelLine)

/-- A served method as a document. -/
def servedJson (method : HttpMethod) (e : Endpoint) (steps : List String) : Json :=
  .object [("method", .string method.name), ("path", .string e.path), ("chain", .strings steps)]

/-- A channel as a document. -/
def channelJson (r : Channel.Route) : Json :=
  .object
    [("path", .string r.path),
     ("pattern", .string r.pattern.text),
     ("params", .strings r.pattern.names),
     ("forbidden", .bool r.access.isForbidden),
     ("connect", .strings (r.handlers.connect.map (·.name))),
     ("message", .strings (r.handlers.message.map (·.name))),
     ("disconnect", .strings (r.handlers.disconnect.map (·.name)))]

/-- What a model serves as a document. -/
def routesJson (m : Model) : String :=
  success "Routes listed"
    [("http", .array ((served m).map fun (method, e, steps) => servedJson method e steps)),
     ("realtime", .array ((Channel.tableOf m).map channelJson))]

end EndpointTree.CommandLine.Report
