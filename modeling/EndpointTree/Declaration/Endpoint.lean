import EndpointTree.Declaration.Access
import EndpointTree.Declaration.Handlers
import EndpointTree.Path
import EndpointTree.Tree

/-!
# Declared endpoints

A model is a tree of objects. A member whose key starts with `/` is a child
endpoint; the other known keys declare the endpoint's own settings, and unknown
keys are ignored. Reading goes depth first through the members in written order,
so the fault that is reported is the first one on that way.

* `Declaration.ofJson` reads a whole tree.
-/

namespace EndpointTree

/-- The settings that one endpoint declares, under its key in the parent. -/
structure Declaration where
  key : String
  access : Declaration.Access := {}
  cors : Option Declaration.Cors := none
  handlers : Declaration.HandlerLists := []
  filters : Declaration.HandlerLists := []
  channel : Declaration.Channel := {}
  collection : Option String := none

namespace Declaration

/-- Read one setting; `path` is that of the endpoint. -/
def put (path key : String) (value : Json) (d : Declaration) : Except Fault Declaration :=
  if key = "auth" then .ok { d with access := Access.ofJson value }
  else if key = "cors" then
    match Cors.ofJson value with
    | .ok cors => .ok { d with cors := some cors }
    | .error fault => .error (.cors path fault)
  else if key = "handlers" then
    (HandlerLists.ofJson path key value).map fun lists => { d with handlers := lists }
  else if key = "filters" then
    (HandlerLists.ofJson path key value).map fun lists => { d with filters := lists }
  else if key = "realTime" then
    (Channel.ofJson path value).map fun channel => { d with channel := channel }
  else if key = "collection" then
    match value with
    | .string name => .ok { d with collection := some name }
    | _ => .error (.notASection path key)
  else .ok d

mutual

/-- Read the endpoint at `path`, declared under `key`, and everything below it. -/
def ofJson (path key : String) : Json → Except Fault (Tree Declaration)
  | .object members => ofMembers path { key } [] members
  | _ => .error (.notANode path)

/-- Read members on top of the settings and children that are already read. -/
def ofMembers (path : String) (d : Declaration) (children : List (Tree Declaration)) :
    List (String × Json) → Except Fault (Tree Declaration)
  | [] => .ok (.node d children)
  | (key, value) :: rest =>
    if Path.isChildKey key then
      match ofJson (Path.join path key) key value with
      | .error fault => .error fault
      | .ok child => ofMembers path d (children ++ [child]) rest
    else
      match put path key value d with
      | .error fault => .error fault
      | .ok d => ofMembers path d children rest

end

end Declaration

end EndpointTree
