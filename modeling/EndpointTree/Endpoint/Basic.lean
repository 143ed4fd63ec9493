import EndpointTree.Endpoint.AuthTable
import EndpointTree.Endpoint.CorsOptions
import EndpointTree.Handling.Registry
import EndpointTree.Tree

/-!
# Compiled endpoints

A compiled endpoint has everything that serving it takes: its path, a complete
table of access rules, tables for single fields, cross-origin settings, and the
handlers of every method and of its channel.
-/

namespace EndpointTree

/-- The channel handlers of an endpoint, by the stage of a session. -/
structure ChannelHandlers where
  connect : List Channel.NamedHandler := []
  message : List Channel.NamedHandler := []
  disconnect : List Channel.NamedHandler := []

namespace ChannelHandlers

instance : Inhabited ChannelHandlers := ⟨{}⟩

def isEmpty (h : ChannelHandlers) : Bool :=
  h.connect.isEmpty && h.message.isEmpty && h.disconnect.isEmpty

def same (a b : ChannelHandlers) : Bool :=
  a.connect.map (·.name) == b.connect.map (·.name) &&
    a.message.map (·.name) == b.message.map (·.name) &&
    a.disconnect.map (·.name) == b.disconnect.map (·.name)

end ChannelHandlers

/-- Handlers for every HTTP method. -/
abbrev HandlerTable := HttpMethod → List NamedHandler

namespace HandlerTable

/-- No handler for any method. -/
def empty : HandlerTable := fun _ => []

/-- Put a list in place of those of some methods. -/
def assign (table : HandlerTable) (methods : HttpMethod → Bool) (handlers : List NamedHandler) :
    HandlerTable :=
  fun m => if methods m then handlers else table m

def same (a b : HandlerTable) : Bool :=
  HttpMethod.all.all fun m => (a m).map (·.name) == (b m).map (·.name)

end HandlerTable

/-- An endpoint, compiled. -/
structure Endpoint where
  /-- The key under the parent, empty at the root. -/
  key : String
  /-- The path with parameters by name. -/
  path : String
  access : AuthTable
  /-- The tables of fields that are declared here or above. -/
  fields : List (String × AuthTable)
  cors : CorsOptions
  handlers : HandlerTable
  filters : HandlerTable
  channel : ChannelHandlers
  collection : Option String

namespace Endpoint

/-- Whether a method has anything to run. -/
def isServed (e : Endpoint) (m : HttpMethod) : Bool :=
  !(e.handlers m).isEmpty || !(e.filters m).isEmpty

/-- The methods with anything to run, in the order of all methods. -/
def servedMethods (e : Endpoint) : List HttpMethod := HttpMethod.all.filter e.isServed

/-- The table of a field, if one is declared for it here or above. -/
def field? (e : Endpoint) (name : String) : Option AuthTable := e.fields.lookup name

/-- Whether two endpoints are the same, policies and handlers by name. -/
def same (a b : Endpoint) : Bool :=
  a.key == b.key && a.path == b.path && a.access.same b.access &&
    a.fields.map (·.1) == b.fields.map (·.1) &&
    (a.fields.zip b.fields).all (fun (x, y) => AuthTable.same x.2 y.2) &&
    decide (a.cors = b.cors) && a.handlers.same b.handlers && a.filters.same b.filters &&
    a.channel.same b.channel && a.collection == b.collection

end Endpoint

/-- A compiled tree of endpoints. -/
abbrev Model := Tree Endpoint

namespace Model

/-- Whether an endpoint of the tree has a channel handler. -/
def hasRealtime (m : Model) : Bool := m.anyValue fun e => !e.channel.isEmpty

/-- The first endpoint with that path, with everything below it. -/
def find? (m : Model) (path : String) : Option Model :=
  m.subtrees.find? fun t => t.value.path = path

/-- The first child under a key. -/
def child? (m : Model) (key : String) : Option Model :=
  m.children.find? fun t => t.value.key = key

mutual

/-- Whether two models are the same, policies and handlers by name. -/
def same : Model → Model → Bool
  | .node a as, .node b bs => a.same b && sameAll as bs

/-- Whether models are the same one by one, and as many. -/
def sameAll : List Model → List Model → Bool
  | [], [] => true
  | a :: as, b :: bs => same a b && sameAll as bs
  | _, _ => false

end

end Model

end EndpointTree
