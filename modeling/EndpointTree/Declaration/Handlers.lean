import EndpointTree.Declaration.Fault
import EndpointTree.Declaration.Names
import EndpointTree.Method

/-!
# Handler sections

`handlers` and `filters` declare lists of names for the read group, the write
group or a single method. Every value in a section has to be a list of names,
also one under a key that names no method and is otherwise ignored.
-/

namespace EndpointTree.Declaration

/-- The HTTP methods that a list of handlers is declared for. -/
inductive HandlerScope where
  | read
  | write
  | method (m : HttpMethod)
  deriving DecidableEq, Repr

/-- The scope of a declaration key. -/
def HandlerScope.ofKey? (key : String) : Option HandlerScope :=
  if key = "read" then some .read
  else if key = "write" then some .write
  else (HttpMethod.ofName? key).map .method

/-- Names by scope, in written order. -/
abbrev HandlerLists := List (HandlerScope × List String)

namespace HandlerLists

/-- Read lists in written order; the names are looked at before the key. -/
def ofMembers (path sectionKey : String) : List (String × Json) → Except Fault HandlerLists
  | [] => .ok []
  | (key, value) :: rest =>
    match names? value with
    | none => .error (.notNames path s!"{sectionKey}.{key}")
    | some names =>
      match ofMembers path sectionKey rest with
      | .error fault => .error fault
      | .ok lists => match HandlerScope.ofKey? key with
        | some scope => .ok ((scope, names) :: lists)
        | none => .ok lists

/-- Read the value of a `handlers` or a `filters` section. -/
def ofJson (path sectionKey : String) : Json → Except Fault HandlerLists
  | .object members => ofMembers path sectionKey members
  | _ => .error (.notASection path sectionKey)

end HandlerLists

/-- The names of real-time handlers, by the stage of a session. -/
structure Channel where
  connect : List String := []
  message : List String := []
  disconnect : List String := []
  deriving DecidableEq

namespace Channel

instance : Inhabited Channel := ⟨{}⟩

/-- Whether no stage has a handler. -/
def isEmpty (c : Channel) : Bool := c.connect.isEmpty && c.message.isEmpty && c.disconnect.isEmpty

/-- The names of one stage; `null` counts as absent. -/
def stageNames (path key : String) (members : List (String × Json)) :
    Except Fault (List String) :=
  match members.lookup key with
  | none | some .null => .ok []
  | some value => match names? value with
    | some names => .ok names
    | none => .error (.notNames path s!"realTime.{key}")

/-- Read the value of a `realTime` section, one stage after another. -/
def ofJson (path : String) : Json → Except Fault Channel
  | .object members => do
    let connect ← stageNames path "connect" members
    let message ← stageNames path "message" members
    let disconnect ← stageNames path "disconnect" members
    return ⟨connect, message, disconnect⟩
  | _ => .error (.notASection path "realTime")

end Channel

end EndpointTree.Declaration
