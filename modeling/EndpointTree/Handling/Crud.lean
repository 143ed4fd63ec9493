import EndpointTree.Handling.Registry

/-!
# Storage handlers

Six handlers work on the collection that is bound to the endpoint. They never
return an error: what goes wrong becomes a stop, and then the store is as it was.
-/

namespace EndpointTree

/-- The operations on records. -/
inductive Crud where
  | create | readOne | readMany | update | patch | remove
  deriving DecidableEq, Repr

namespace Crud

def all : List Crud := [.create, .readOne, .readMany, .update, .patch, .remove]

def name : Crud → String
  | .create => "create"
  | .readOne => "readOne"
  | .readMany => "readMany"
  | .update => "update"
  | .patch => "patch"
  | .remove => "remove"

/-- The path parameter that names a record. -/
def idParam : String := "id"

/-- The stop of a single-record operation on a path without that parameter. -/
def missingId (op : Crud) : Stop :=
  .ofError ⟨.badRequest, s!"'{op.name}' requires an :{idParam} path parameter"⟩

/-- The stop where a record is not there. -/
def missingRecord : Stop := .ofError ⟨.notFound, "Record not found"⟩

/-- The end of a step whose operation succeeded or failed. -/
def finish : Except StoreFault Json → Step Json
  | .ok value => .proceed value
  | .error fault => .stop (.ofError (.ofStoreFault fault))

/-- The end of a step whose operation may find no record. -/
def finishFound : Except StoreFault (Option Json) → Step Json
  | .ok (some value) => .proceed value
  | .ok none => .stop missingRecord
  | .error fault => .stop (.ofError (.ofStoreFault fault))

/-- Work on the record that the path names. -/
def onRecord (op : Crud) (x : Exchange)
    (work : String → Step Json × Store) : Step Json × Exchange :=
  match x.params.get? idParam with
  | none => (.stop op.missingId, x)
  | some id =>
    let (step, store) := work id
    (step, { x with store })

/-- Perform the operation on a collection. -/
def perform (op : Crud) (collection : String) (data : Json) (x : Exchange) :
    Step Json × Exchange :=
  match op with
  | .create =>
    match x.store.create collection data with
    | (.ok record, store) => (.proceed record, { x with store, status := some 201 })
    | (.error fault, store) => (finish (.error fault), { x with store })
  | .readMany =>
    match Query.ofParams x.query with
    | .error fault => (finish (.error (.invalidQuery fault)), x)
    | .ok q => (finish ((x.store.readMany collection q).map Page.toJson), x)
  | .readOne => op.onRecord x fun id => (finishFound (.ok (x.store.readOne collection id)), x.store)
  | .update => op.onRecord x fun id =>
    let (result, store) := x.store.update collection id data
    (finish result, store)
  | .patch => op.onRecord x fun id =>
    let (result, store) := x.store.patch collection id data
    (finishFound result, store)
  | .remove => op.onRecord x fun id =>
    let (result, store) := x.store.remove collection id
    (finishFound (.ok result), store)

/-- The operation as a handler; without a bound collection it stops. -/
def handler (op : Crud) : Handler := fun data x =>
  match x.collection with
  | none => (.stop .internal, x)
  | some collection => op.perform collection data x

end Crud

end EndpointTree
