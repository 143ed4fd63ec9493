import EndpointTree.Json.Value

/-!
# Changes

Every successful write is published as one change with the full record: the
record after the write, or the one that was removed.
-/

namespace EndpointTree

/-- What a write did to its record. -/
inductive ChangeKind where
  | created | updated | patched | removed
  deriving DecidableEq, Repr

/-- The name under which observers hear of a change. -/
def ChangeKind.name : ChangeKind → String
  | .created => "created"
  | .updated => "updated"
  | .patched => "patched"
  | .removed => "removed"

/-- A committed write. -/
structure Change where
  kind : ChangeKind
  collection : String
  record : Json
  deriving DecidableEq

namespace Change

/-- A change as observers receive it; they know the collection. -/
def toJson (c : Change) : Json := .object [("kind", .string c.kind.name), ("record", c.record)]

end Change

end EndpointTree
