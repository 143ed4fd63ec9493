import EndpointTree.Dict
import EndpointTree.Json.Printer
import EndpointTree.Text.Unsigned

/-!
# Queries

The parameters of a request or a connection ask for records: `$limit` and
`$cursor` page the result, and every other key is an equality filter. A record
passes a filter if the member is the expected string, or any other value whose
compact text is.
-/

namespace EndpointTree

/-- Why a query cannot be answered. -/
inductive QueryFault where
  | limitNotNumber (given : String)
  | cursorNotNumber (given : String)
  | described (text : String)
  deriving DecidableEq, Repr

def QueryFault.message : QueryFault → String
  | .limitNotNumber given => s!"$limit must be a number, got '{given}'"
  | .cursorNotNumber given => s!"invalid cursor '{given}'"
  | .described text => text

/-- Equality filters and paging. -/
structure Query where
  filter : Dict String := .empty
  limit : Option Nat := none
  cursor : Option String := none

namespace Query

instance : Inhabited Query := ⟨{}⟩

/-- The keys that page a result. -/
def pagingKeys : List String := ["$limit", "$cursor"]

/-- The query of request parameters: all but the two that page are filters. -/
def ofParams (params : Dict String) : Except QueryFault Query :=
  let filter := pagingKeys.foldl Dict.erase params
  let cursor := params.get? "$cursor"
  match params.get? "$limit" with
  | none => .ok ⟨filter, none, cursor⟩
  | some given => match Text.unsigned? Text.count64 given with
    | some limit => .ok ⟨filter, some limit, cursor⟩
    | none => .error (.limitNotNumber given)

/-- Whether a record's member is what a filter expects. -/
def memberMatches (record : Json) (key expected : String) : Bool :=
  match record.member? key with
  | some (.string actual) => actual = expected
  | some other => other.text = expected
  | none => false

/-- Whether a record passes every filter. -/
def accepts (q : Query) (record : Json) : Bool :=
  q.filter.toList.all fun (key, expected) => memberMatches record key expected

/-- The position at which the page starts. -/
def offset (q : Query) : Except QueryFault Nat :=
  match q.cursor with
  | none => .ok 0
  | some given => match Text.unsigned? Text.count64 given with
    | some n => .ok n
    | none => .error (.cursorNotNumber given)

end Query

/-- A part of what a query finds, and where the rest begins. -/
structure Page where
  documents : List Json
  count : Nat
  cursor : Option String
  deriving DecidableEq

namespace Page

/-- The page as a document; the cursor stands only where there is more. -/
def toJson (p : Page) : Json :=
  .object <| [("documents", .array p.documents), ("count", .number (.ofInt p.count))] ++
    (p.cursor.map fun c => ("cursor", Json.string c)).toList

end Page

end EndpointTree
