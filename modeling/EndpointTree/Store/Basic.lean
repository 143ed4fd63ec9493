import EndpointTree.Store.Change
import EndpointTree.Store.Query

/-!
# The store

Records are objects with a string `id`, kept by collection in the order of their
creation. A write either succeeds, changes one record and publishes one change,
or it fails and leaves everything as it was. A record that comes without an
identifier is given the next one of a supply that is not taken: the supply
stands for random identifiers, which no record has.

* `Store.records` is the view of one collection.
* `Store.create`, `Store.update`, `Store.patch` and `Store.remove` are the writes;
  `Store.readOne` and `Store.readMany` read.
-/

namespace EndpointTree

/-- Why a value cannot be stored. -/
inductive DataFault where
  | notAnObject (value : Json)
  | idNotText (value : Json)
  | duplicateId (id : String)
  | described (text : String)
  deriving DecidableEq

def DataFault.message : DataFault → String
  | .notAnObject value => s!"expected an object, got {value.text}"
  | .idNotText value => s!"id must be a string, got {value.text}"
  | .duplicateId id => s!"duplicate id '{id}'"
  | .described text => text

/-- Why an operation fails. -/
inductive StoreFault where
  | notFound (collection id : String)
  | invalidData (fault : DataFault)
  | invalidQuery (fault : QueryFault)
  | backend (text : String)
  deriving DecidableEq

def StoreFault.message : StoreFault → String
  | .notFound collection id => s!"record '{id}' not found in '{collection}'"
  | .invalidData fault => s!"invalid data: {fault.message}"
  | .invalidQuery fault => s!"invalid query: {fault.message}"
  | .backend text => s!"storage backend error: {text}"

/-- Collections of records, the changes published so far, and the supply of identifiers. -/
structure Store where
  collections : Dict (List Json) := .empty
  changes : List Change := []
  supply : Nat → String
  drawn : Nat := 0

namespace Store

/-- A store without records that draws from the given supply. -/
def new (supply : Nat → String) : Store := { supply }

/-- The records of a collection in order of creation. -/
def records (s : Store) (collection : String) : List Json :=
  (s.collections.get? collection).getD []

/-- The identifier of a record. -/
def recordId? (record : Json) : Option String := (record.member? "id").bind Json.string?

/-- Whether a record has that identifier. -/
def hasId (id : String) (record : Json) : Bool := recordId? record = some id

/-- Put records in place of a collection's and publish the change that made them. -/
def commit (s : Store) (kind : ChangeKind) (collection : String) (record : Json)
    (records : List Json) : Store :=
  { s with
    collections := s.collections.insert collection records
    changes := s.changes ++ [⟨kind, collection, record⟩] }

/-- Replace the first record with that identifier. -/
def replaceFirst (id : String) (record : Json) : List Json → List Json
  | [] => []
  | r :: rest => if hasId id r then record :: rest else r :: replaceFirst id record rest

/-- Drop the first record with that identifier. -/
def removeFirst (id : String) : List Json → List Json
  | [] => []
  | r :: rest => if hasId id r then rest else r :: removeFirst id rest

/-- Add a record under an identifier that is not taken. -/
def add (s : Store) (collection id : String) (members : List (String × Json)) :
    Except StoreFault Json × Store :=
  let records := s.records collection
  if records.any (hasId id) then (.error (.invalidData (.duplicateId id)), s)
  else
    let record := Json.object (Pairs.put "id" (.string id) members)
    (.ok record, s.commit .created collection record (records ++ [record]))

/-- The number of the first identifier of a supply that no record has, from a number on and
among as many as `steps`; where there is none, the number behind these. -/
def firstFree (supply : Nat → String) (records : List Json) : (steps number : Nat) → Nat
  | 0, number => number
  | steps + 1, number =>
    if records.any (hasId (supply number)) then firstFree supply records steps (number + 1)
    else number

/-- The number of the identifier that the next record without one is given in a collection; of
more identifiers than there are records one is free. -/
def nextDraw (s : Store) (collection : String) : Nat :=
  firstFree s.supply (s.records collection) (s.records collection).length s.drawn

/-- Add a record; without an `id` of its own it is given one of the supply. -/
def create (s : Store) (collection : String) : Json → Except StoreFault Json × Store
  | .object members =>
    match members.lookup "id" with
    | some (.string id) => s.add collection id members
    | some other => (.error (.invalidData (.idNotText other)), s)
    | none =>
      let number := s.nextDraw collection
      match s.add collection (s.supply number) members with
      | (.ok record, next) => (.ok record, { next with drawn := number + 1 })
      | (.error fault, _) => (.error fault, s)
  | other => (.error (.invalidData (.notAnObject other)), s)

def readOne (s : Store) (collection id : String) : Option Json :=
  (s.records collection).find? (hasId id)

/-- The page of records that a query asks for. -/
def readMany (s : Store) (collection : String) (q : Query) : Except StoreFault Page :=
  match q.offset with
  | .error fault => .error (.invalidQuery fault)
  | .ok offset =>
    let found := (s.records collection).filter q.accepts
    let count := found.length
    let documents := (found.drop offset).take (q.limit.getD count)
    let next := offset + documents.length
    .ok ⟨documents, count, if next < count then some (Nat.repr next) else none⟩

/-- Replace a record; the identifier of the data is overruled. -/
def update (s : Store) (collection id : String) : Json → Except StoreFault Json × Store
  | .object members =>
    let records := s.records collection
    if records.any (hasId id) then
      let record := Json.object (Pairs.put "id" (.string id) members)
      (.ok record, s.commit .updated collection record (replaceFirst id record records))
    else (.error (.notFound collection id), s)
  | other => (.error (.invalidData (.notAnObject other)), s)

/-- Lay members over those of a record, the identifier excepted. -/
def overlay (changes existing : List (String × Json)) : List (String × Json) :=
  changes.foldl (fun acc m => if m.1 = "id" then acc else Pairs.put m.1 m.2 acc) existing

/-- A record with members laid over its own. -/
def patched (changes : List (String × Json)) : Json → Json
  | .object existing => .object (overlay changes existing)
  | other => other

/-- Change members of a record; nothing happens where there is none. -/
def patch (s : Store) (collection id : String) : Json → Except StoreFault (Option Json) × Store
  | .object changes =>
    let records := s.records collection
    match records.find? (hasId id) with
    | none => (.ok none, s)
    | some existing =>
      let record := patched changes existing
      (.ok (some record), s.commit .patched collection record (replaceFirst id record records))
  | other => (.error (.invalidData (.notAnObject other)), s)

/-- Take a record out; nothing happens where there is none. -/
def remove (s : Store) (collection id : String) : Option Json × Store :=
  let records := s.records collection
  match records.find? (hasId id) with
  | none => (none, s)
  | some record => (some record, s.commit .removed collection record (removeFirst id records))

end Store

end EndpointTree
