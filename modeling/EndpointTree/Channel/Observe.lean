import EndpointTree.Channel.Event
import EndpointTree.Handling.Crud

/-!
# Observing a collection

The handler `observe` subscribes its connection to the changes of the bound
collection that follow; the connection's query filters them. What the handler was
given it passes on.
-/

namespace EndpointTree.Channel

/-- Whether a subscription reports a change. -/
def Watch.accepts (w : Watch) (change : Change) : Bool :=
  change.collection = w.collection && w.query.accepts change.record

/-- Subscribe to changes from here on. -/
def observe : Handler := fun data ctx store =>
  match ctx.collection with
  | none => { outcome := .fail (.noCollection ctx.path), store }
  | some collection => match Query.ofParams ctx.query with
    | .error fault => { outcome := .fail (.store (.invalidQuery fault)), store }
    | .ok query =>
      { outcome := .proceed data, watches := [⟨collection, query, store.changes.length⟩], store }

end EndpointTree.Channel

namespace EndpointTree

/-- The registry with the storage handlers and `observe`. -/
def Registry.builtins : Registry :=
  (Crud.all.foldl (fun r op => r.addHandler op.name op.handler) Registry.empty).addChannel
    "observe" Channel.observe

end EndpointTree
