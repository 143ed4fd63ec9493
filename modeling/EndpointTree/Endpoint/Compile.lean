import EndpointTree.Declaration.Endpoint
import EndpointTree.Endpoint.Basic

/-!
# Compiling declarations

Access rules and cross-origin settings pass from parent to child; handlers never
do. At one endpoint a rule for a single method wins over one for its group, that
over one for all methods, and that over the parent's entry. A rule replaces an
entry as a whole. A malformed rule compiles to a forbidden entry.

* `Endpoint.compile` turns a tree of declarations into a model.
* `Model.ofJson` reads and compiles a document.
-/

namespace EndpointTree

/-- Why a document does not compile. -/
inductive CompileFault where
  | declaration (fault : Declaration.Fault)
  | unknownHandler (path kind name : String)
  | unknownPolicy (path name : String)
  | unknownChannelHandler (path name : String)
  deriving DecidableEq

/-- The wording of a fault, with the endpoint at which the name was met. -/
def CompileFault.message : CompileFault → String
  | .declaration fault => fault.message
  | .unknownHandler path kind name => s!"endpoint '{path}': unknown {kind} '{name}'"
  | .unknownPolicy path name => s!"endpoint '{path}': unknown policy '{name}'"
  | .unknownChannelHandler path name => s!"endpoint '{path}': unknown real-time handler '{name}'"

namespace Endpoint

/-- Look names up one after another; the first that is unknown decides. -/
def lookUp {α β : Type} (table : Dict α) (make : String → α → β) (unknown : String → CompileFault) :
    List String → Except CompileFault (List β)
  | [] => .ok []
  | name :: rest =>
    match table.get? name with
    | none => .error (unknown name)
    | some value => (lookUp table make unknown rest).map (make name value :: ·)

/-! ## Access -/

/-- The entry of a rule. -/
def entryOf (registry : Registry) (path : String) : Declaration.Rule → Except CompileFault AuthEntry
  | .deny | .malformed _ => .ok .forbidden
  | .allow => .ok (.required .anyone)
  | .require auth roles policies =>
    (lookUp registry.policies (fun _ p => p) (.unknownPolicy path) policies).map fun policies =>
      .required (.withPolicies (auth.getD true) roles policies)

/-- Whether a rule for the scope reaches a method. -/
def covers : Declaration.Scope → AccessMethod → Bool
  | .common, _ => true
  | .read, m => m.isRead
  | .write, m => !m.isRead
  | .method m, m' => m = m'

/-- The rank of a scope: a rule in a higher one overwrites one in a lower. -/
def narrowness : Declaration.Scope → Nat
  | .common => 0
  | .read => 1
  | .write => 2
  | .method _ => 3

/-- Rules from the widest scope to the narrowest, in written order within one. -/
def widestFirst {α : Type} (rules : List (Declaration.Scope × α)) : List (Declaration.Scope × α) :=
  [0, 1, 2, 3].flatMap fun n => rules.filter fun r => narrowness r.1 = n

/-- The entries of rules, in the order of the rules. -/
def entriesOf (registry : Registry) (path : String) :
    List (Declaration.Scope × Declaration.Rule) →
      Except CompileFault (List (Declaration.Scope × AuthEntry))
  | [] => .ok []
  | (scope, rule) :: rest => do
    let entry ← entryOf registry path rule
    return (scope, entry) :: (← entriesOf registry path rest)

/-- The table that rules make of an inherited one. -/
def resolveAccess (registry : Registry) (path : String) (inherited : AuthTable)
    (rules : List (Declaration.Scope × Declaration.Rule)) : Except CompileFault AuthTable :=
  (entriesOf registry path (widestFirst rules)).map fun entries =>
    entries.foldl (fun table (scope, entry) => table.assign (covers scope) entry) inherited

/-- The field tables of an endpoint: declared fields are resolved over its own table, and put
in place of inherited ones. -/
def resolveFields (registry : Registry) (path : String) (access : AuthTable)
    (inherited : List (String × AuthTable)) :
    List (String × Declaration.Access) → Except CompileFault (List (String × AuthTable))
  | [] => .ok inherited
  | (name, d) :: rest => do
    let table ← resolveAccess registry path access d.rules
    resolveFields registry path access (Pairs.put name table inherited) rest

/-! ## Handlers -/

/-- Whether a list for the scope reaches a method. -/
def handlerCovers : Declaration.HandlerScope → HttpMethod → Bool
  | .read, m => m.isRead
  | .write, m => !m.isRead
  | .method m, m' => m = m'

/-- The rank of a scope of handlers, as of one of rules. -/
def handlerNarrowness : Declaration.HandlerScope → Nat
  | .read => 0
  | .write => 1
  | .method _ => 2

/-- Lists from the widest scope to the narrowest, in written order within one. -/
def widestListsFirst (lists : Declaration.HandlerLists) : Declaration.HandlerLists :=
  [0, 1, 2].flatMap fun n => lists.filter fun l => handlerNarrowness l.1 = n

/-- Put the handlers of each list in place of those that the table has for its methods. -/
def assignHandlers (registry : Registry) (path kind : String) (table : HandlerTable) :
    Declaration.HandlerLists → Except CompileFault HandlerTable
  | [] => .ok table
  | (scope, names) :: rest => do
    let handlers ← lookUp registry.handlers NamedHandler.mk (.unknownHandler path kind) names
    assignHandlers registry path kind (table.assign (handlerCovers scope) handlers) rest

/-- The handlers that a section declares; nothing is inherited. -/
def resolveHandlers (registry : Registry) (path kind : String) (lists : Declaration.HandlerLists) :
    Except CompileFault HandlerTable :=
  assignHandlers registry path kind .empty (widestListsFirst lists)

/-- The channel handlers that a section declares. -/
def resolveChannel (registry : Registry) (path : String) (d : Declaration.Channel) :
    Except CompileFault ChannelHandlers := do
  let stage := lookUp registry.channels Channel.NamedHandler.mk (.unknownChannelHandler path)
  let connect ← stage d.connect
  let message ← stage d.message
  let disconnect ← stage d.disconnect
  return ⟨connect, message, disconnect⟩

/-! ## Trees -/

/-- What an endpoint passes on to its children. -/
structure Inherited where
  path : Option String
  access : AuthTable
  fields : List (String × AuthTable)
  cors : CorsOptions
  collection : Option String

/-- What the root inherits: an open table and the settings of the host. -/
def Inherited.root (cors : CorsOptions) : Inherited := ⟨none, .root, [], cors, none⟩

/-- What an endpoint passes on to its children. -/
def passOn (e : Endpoint) : Inherited := ⟨some e.path, e.access, e.fields, e.cors, e.collection⟩

/-- Compile one endpoint under what is passed on to it. -/
def compileOne (registry : Registry) (above : Inherited) (d : Declaration) :
    Except CompileFault Endpoint := do
  let path := match above.path with
    | some parent => Path.join parent d.key
    | none => "/"
  let access ← resolveAccess registry path above.access d.access.rules
  let fields ← resolveFields registry path access above.fields d.access.fields
  let cors := match d.cors with
    | some cors => above.cors.overlay cors
    | none => above.cors
  let handlers ← resolveHandlers registry path "handler" d.handlers
  let filters ← resolveHandlers registry path "filter" d.filters
  let channel ← resolveChannel registry path d.channel
  return { key := d.key, path, access, fields, cors, handlers, filters, channel,
           collection := d.collection <|> above.collection }

mutual

/-- Compile a tree: an endpoint first, then its children in order. -/
def compile (registry : Registry) (above : Inherited) : Tree Declaration → Except CompileFault Model
  | .node d children =>
    match compileOne registry above d with
    | .error fault => .error fault
    | .ok e => (compileAll registry e.passOn children).map (.node e)

/-- Compile siblings in their order, all of them under the same inheritance. -/
def compileAll (registry : Registry) (above : Inherited) :
    List (Tree Declaration) → Except CompileFault (List Model)
  | [] => .ok []
  | t :: rest =>
    match compile registry above t with
    | .error fault => .error fault
    | .ok m => (compileAll registry above rest).map (m :: ·)

end

end Endpoint

/-- Read a document and compile it. Everything is read before anything is compiled. -/
def Model.ofJson (registry : Registry) (defaults : CorsOptions) (raw : Json) :
    Except CompileFault Model :=
  match Declaration.ofJson "/" "" raw with
  | .error fault => .error (.declaration fault)
  | .ok tree => Endpoint.compile registry (.root defaults) tree

end EndpointTree
