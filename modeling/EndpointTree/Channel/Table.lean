import EndpointTree.Channel.Pattern
import EndpointTree.Endpoint.Basic

/-!
# The table of channels

The table lists the endpoints from which a channel handler can be reached, each
before those below it; a subtree without any channel handler is left out. The
first route that matches a namespace is the one that serves it.

* `Channel.tableOf` makes the table of a model.
* `Channel.route?` finds the route of a namespace, with its parameters.
-/

namespace EndpointTree.Channel

/-- What serving a namespace takes. -/
structure Route where
  path : String
  pattern : Pattern
  access : AuthEntry
  handlers : ChannelHandlers
  collection : Option String

/-- The route of an endpoint. -/
def Route.ofEndpoint (e : Endpoint) : Route where
  path := e.path
  pattern := .ofPath e.path
  access := e.access .realTime
  handlers := e.channel
  collection := e.collection

/-- Routes in order; the first that matches counts. -/
abbrev Table := List Route

mutual

/-- The routes of a model, without subtrees that have no channel handler. -/
def tableOf : Model → Table
  | .node e children =>
    if Model.hasRealtime (.node e children) then .ofEndpoint e :: tablesOf children else []

/-- The routes of models, one after another. -/
def tablesOf : List Model → Table
  | [] => []
  | m :: rest => tableOf m ++ tablesOf rest

end

/-- The first route that matches a namespace, and its parameters. -/
def route? (table : Table) (namespaceText : String) : Option (Route × Dict String) :=
  let tidy := tidyNamespace namespaceText
  table.findSome? fun route => (route.pattern.params? tidy).map fun params => (route, params)

/-- The keys that a transport adds to a query; handlers never see them. -/
def transportKeys : List String := ["EIO", "transport", "t", "token"]

/-- A query without the keys of the transport. -/
def withoutTransport (query : Dict String) : Dict String := transportKeys.foldl Dict.erase query

end EndpointTree.Channel
