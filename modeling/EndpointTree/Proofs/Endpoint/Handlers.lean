import EndpointTree.Chain
import EndpointTree.Proofs.Endpoint.Precedence
import EndpointTree.Proofs.Endpoint.Sources

/-!
# Handlers against declarations

Handlers are never inherited: the handlers of a method are those that the section of its own
endpoint gives it, under the method's own key or else under the key of its group. A list under
the method's own key counts even if it is empty. The same goes for filters, and the chain of a
method is made of the two.

* `Declaration.HandlerLists.namesFor` and `Declaration.Source.handlers` say which names a
  method is given, in a declaration and in a document.
* `Endpoint.resolveHandlers_stands`: the handlers of a method are what these names stand for.
* `Endpoint.compile_chains` is the statement for whole trees, and
  `Endpoint.compile_own_at_sources` reads such statements off a document.
-/

namespace EndpointTree

theorem Tree.forall₂_values {α β : Type} {R : α → β → Prop} {above : List α} {t : Tree α}
    {bs : List β}
    (each : List.Forall₂ (fun lineage b => ∃ a, List.head? lineage = some a ∧ R a b)
      (t.lineages above) bs) : List.Forall₂ R t.values bs := by
  have heads : List.Forall₂ (fun first b => ∃ a, first = some a ∧ R a b) (t.values.map some) bs := by
    rw [← map_head?_lineages above, List.forall₂_map_left_iff]
    exact each
  exact (List.forall₂_map_left_iff.mp heads).imp fun a b found => by
    obtain ⟨_, same, holds⟩ := found
    rwa [Option.some.inj same]

/-- What comes from handlers and what from filters, in the order in which a method runs them. -/
def inClassOrder {α : Type} (m : HttpMethod) (handlers filters : List α) : List α :=
  if m.isRead then handlers ++ filters else filters ++ handlers

namespace Declaration

/-! ## Names for a method -/

/-- The scope of the group that a method belongs to. -/
def HandlerScope.groupOf (m : HttpMethod) : HandlerScope := if m.isRead then .read else .write

/-- The names that lists give a method: those of its own list, else those of its group's. -/
def HandlerLists.namesFor (lists : HandlerLists) (m : HttpMethod) : List String :=
  ((lastUnder? (.method m) lists).or (lastUnder? (.groupOf m) lists)).getD []

/-- The names that a section gives a method: those under its own key, else those under the key
of its group. -/
def namesUnder (keys : List (String × Json)) (m : HttpMethod) : List String :=
  (((lastUnder? m.name keys).or (lastUnder? (groupKey m) keys)).map namesIn).getD []

/-- What stands in a section of an endpoint. -/
def Source.keysOf (s : Source) (name : String) : List (String × Json) :=
  ((lastUnder? name s.members).map membersOf).getD []

/-- The names of the handlers of a method, as an endpoint declares them. -/
def Source.handlers (s : Source) : HttpMethod → List String := namesUnder (s.keysOf "handlers")

/-- The names of the filters of a method, as an endpoint declares them. -/
def Source.filters (s : Source) : HttpMethod → List String := namesUnder (s.keysOf "filters")

/-- The names of everything that a method runs, in order. -/
def Source.chain (s : Source) (m : HttpMethod) : List String :=
  inClassOrder m (s.handlers m) (s.filters m)

/-- The scope of access rules with the same key. -/
def HandlerScope.access : HandlerScope → Scope
  | .read => .read
  | .write => .write
  | .method m => .method m

/-- A method is in the same group for handlers as for access. -/
theorem HandlerScope.access_groupOf (m : HttpMethod) :
    (HandlerScope.groupOf m).access = .groupOf m := by
  cases m <;> rfl

theorem HandlerScope.ofKey?_eq_some_iff {key : String} {s : HandlerScope} :
    HandlerScope.ofKey? key = some s ↔ Scope.ofKey? key = some s.access := by
  unfold HandlerScope.ofKey? Scope.ofKey? AccessMethod.ofName?
  by_cases read : key = "read"
  · cases s <;> simp [read, access]
  by_cases write : key = "write"
  · cases s <;> simp [write, access]
  by_cases realTime : key = "realTime"
  · have unnamed : HttpMethod.ofName? "realTime" = none := by decide
    cases s <;> simp [realTime, access, unnamed]
  · cases s <;> simp [read, write, realTime, access]

/-- For a method, the names are those under its key, or else under its group's. -/
theorem namesFor_listsIn (value : Json) (m : HttpMethod) :
    (listsIn value).namesFor m = namesUnder (membersOf value) m := by
  have own (key : String) : HandlerScope.ofKey? key = some (.method m) ↔ key = m.name :=
    HandlerScope.ofKey?_eq_some_iff.trans ofKey?_eq_method_iff
  have group (key : String) : HandlerScope.ofKey? key = some (.groupOf m) ↔ key = groupKey m := by
    rw [HandlerScope.ofKey?_eq_some_iff, HandlerScope.access_groupOf, ofKey?_eq_groupOf_iff]
  rw [HandlerLists.namesFor, listsIn, lastUnder?_filterMap own namesIn,
    lastUnder?_filterMap group namesIn, namesUnder, Option.map_or]

theorem namesFor_section (value? : Option Json) (m : HttpMethod) :
    ((value?.map listsIn).getD []).namesFor m = namesUnder ((value?.map membersOf).getD []) m := by
  cases value? with
  | none => rfl
  | some value => exact namesFor_listsIn value m

/-- The handlers of a declaration are those of the document. -/
theorem DeclaredBy.namesFor_handlers {s : Source} {d : Declaration}
    (own : DeclaredBy s.members d) : d.handlers.namesFor = s.handlers := by
  funext m
  rw [own.handlers, namesFor_section, Source.handlers, Source.keysOf]

/-- The filters of a declaration are those of the document. -/
theorem DeclaredBy.namesFor_filters {s : Source} {d : Declaration}
    (own : DeclaredBy s.members d) : d.filters.namesFor = s.filters := by
  funext m
  rw [own.filters, namesFor_section, Source.filters, Source.keysOf]

/-- Where no key is repeated, the order of the keys does not count. -/
theorem namesUnder_perm {keys keys' : List (String × Json)} (perm : keys.Perm keys')
    (distinct : (keys.map (·.1)).Nodup) : namesUnder keys = namesUnder keys' := by
  funext m
  rw [namesUnder, namesUnder, lastUnder?_perm perm distinct, lastUnder?_perm perm distinct]

end Declaration

namespace Endpoint

open Declaration (HandlerLists HandlerScope Source pathOf?)

variable {registry : Registry} {path kind : String}

/-! ## What names stand for -/

/-- What stands in a list is what a table has under the names, one for each and in their order;
`nameOf` and `runOf` take it apart. -/
def StandIn {α β : Type} (table : Dict α) (nameOf : β → String) (runOf : β → α) :
    List String → List β → Prop :=
  List.Forall₂ fun name handler => nameOf handler = name ∧ table.get? name = some (runOf handler)

/-- Handlers are those that the names stand for. -/
def Stands (registry : Registry) : List String → List NamedHandler → Prop :=
  StandIn registry.handlers NamedHandler.name NamedHandler.run

/-- Handlers that stand for names carry these names. -/
theorem Stands.names {names : List String} {handlers : List NamedHandler}
    (stands : Stands registry names handlers) : Chain.names handlers = names := by
  induction stands with
  | nil => rfl
  | cons here _ ih => rw [Chain.names, List.map_cons, here.1, ← Chain.names, ih]

/-- Names that are looked up stand for what is found. -/
theorem standIn_of_lookUp {α β : Type} {table : Dict α} {make : String → α → β}
    {nameOf : β → String} {runOf : β → α} (nameEq : ∀ name run, nameOf (make name run) = name)
    (runEq : ∀ name run, runOf (make name run) = run) {names : List String} {handlers : List β}
    {unknown : String → CompileFault} (found : lookUp table make unknown names = .ok handlers) :
    StandIn table nameOf runOf names handlers :=
  (forall₂_of_lookUp_eq_ok found).imp fun name handler known => by
    obtain ⟨run, known, rfl⟩ := known
    exact ⟨nameEq name run, by rw [runEq, known]⟩

/-- Of lists that are assigned one after another, the last that reaches a method decides it. -/
theorem assignHandlers_settles {lists : HandlerLists} {table table' : HandlerTable}
    (assigned : assignHandlers registry path kind table lists = .ok table') (m : HttpMethod) :
    match (lists.reverse.find? fun l => handlerCovers l.1 m).map (·.2) with
    | none => table' m = table m
    | some names => Stands registry names (table' m) := by
  induction lists generalizing table with
  | nil =>
    cases assigned
    rfl
  | cons l rest ih =>
    obtain ⟨scope, names⟩ := l
    rw [assignHandlers] at assigned
    obtain ⟨handlers, found, assigned⟩ := exists_of_bind_eq_ok assigned
    have further := ih assigned
    rw [List.reverse_cons, List.find?_append]
    cases later : rest.reverse.find? fun l => handlerCovers l.1 m with
    | some l =>
      rw [later] at further
      exact further
    | none =>
      -- nothing behind this list reaches the method, so it is this list's turn
      rw [later] at further
      have kept : table' m = if handlerCovers scope m then handlers else table m := further
      rw [Option.none_or, List.find?_singleton]
      cases covered : handlerCovers scope m with
      | true =>
        rw [covered, if_pos rfl] at kept
        rw [if_pos rfl, kept]
        exact standIn_of_lookUp (fun _ _ => rfl) (fun _ _ => rfl) found
      | false =>
        rw [covered, if_neg Bool.false_ne_true] at kept
        exact kept

/-- The list for a method wins over the list for its group. -/
theorem find?_widestListsFirst (lists : HandlerLists) (m : HttpMethod) :
    ((widestListsFirst lists).reverse.find? fun l => handlerCovers l.1 m).map (·.2) =
      (lastUnder? (.method m) lists).or (lastUnder? (.groupOf m) lists) :=
  find?_narrowest handlerNarrowness handlerCovers 0 m (.method m) (.groupOf m) rfl
    (by rw [HandlerScope.groupOf]; cases m.isRead <;> simp [handlerNarrowness])
    (fun s _ => by
      rw [HandlerScope.groupOf]
      cases s <;> cases reads : m.isRead <;> simp_all [handlerCovers]) lists

/-- The handlers of a method are those that its names stand for. -/
theorem resolveHandlers_stands {lists : HandlerLists} {table : HandlerTable}
    (resolved : resolveHandlers registry path kind lists = .ok table) (m : HttpMethod) :
    Stands registry (lists.namesFor m) (table m) := by
  have settles := assignHandlers_settles resolved m
  rw [find?_widestListsFirst] at settles
  rw [HandlerLists.namesFor]
  cases decided : (lastUnder? (.method m) lists).or (lastUnder? (.groupOf m) lists) with
  | none =>
    rw [decided] at settles
    rw [settles]
    exact .nil
  | some names =>
    rw [decided] at settles
    exact settles

/-! ## Chains -/

/-- The handlers and filters of an endpoint are those that names stand for, and its chains are
made of them in the order of the method's class. -/
structure ChainsFollow (registry : Registry) (names filterNames : HttpMethod → List String)
    (e : Endpoint) : Prop where
  handlers : ∀ m, Stands registry (names m) (e.handlers m)
  filters : ∀ m, Stands registry (filterNames m) (e.filters m)
  chain : ∀ m, Stands registry (inClassOrder m (names m) (filterNames m)) (e.chain m)

/-- An endpoint runs the handlers that its own declaration names, and inherits none. -/
theorem Compiled.chainsFollow {above : Inherited} {d : Declaration} {e : Endpoint}
    (compiled : Compiled registry above d e) :
    ChainsFollow registry d.handlers.namesFor d.filters.namesFor e := by
  have handlers := resolveHandlers_stands compiled.handlers
  have filters := resolveHandlers_stands compiled.filters
  refine ⟨handlers, filters, fun m => ?_⟩
  rw [inClassOrder, Endpoint.chain]
  split
  · exact List.rel_append (handlers m) (filters m)
  · exact List.rel_append (filters m) (handlers m)

variable {defaults : CorsOptions} {tree : Tree Declaration} {model : Model}

/-- What compiling one endpoint gives of its own declaration, all endpoints of a model have. -/
theorem compile_own {P : Declaration → Endpoint → Prop}
    (one : ∀ {above d e}, Compiled registry above d e → P d e)
    (compiled : compile registry (.root defaults) tree = .ok model) :
    List.Forall₂
      (fun ds e => pathOf? ds = some e.path ∧ ∃ d, List.head? ds = some d ∧ P d e)
      (tree.lineages []) model.values := by
  refine compile_values (fun above ds => pathOf? ds = above.path)
    (fun {above ds d e} path step => ?_) rfl compiled
  have here := step.pathOf?_eq path
  exact ⟨⟨here, d, rfl, one step⟩, here⟩

/-- The same read off the document that declares the tree, where a part of a declaration comes
from a part of the document. -/
theorem compile_own_at_sources {σ : Type} {P : σ → Endpoint → Prop} {declared : Declaration → σ}
    {written : Source → σ} (one : ∀ {above d e}, Compiled registry above d e → P (declared d) e)
    (same : ∀ {s d}, Declaration.DeclaredBy s.members d → declared d = written s) {raw : Json}
    (read : Declaration.ofJson "/" "" raw = .ok tree)
    (compiled : compile registry (.root defaults) tree = .ok model) :
    List.Forall₂ (fun s e => e.path = s.path ∧ P (written s) e) (Declaration.sources "/" raw)
      model.values := by
  refine forall₂_comp (fun {s ds e} stands holds => ?_) (Declaration.ofJson_sources read rfl)
    (compile_own one compiled)
  obtain ⟨path, d, head, holds⟩ := holds
  cases stands with
  | intro path' own =>
    obtain rfl := Option.some.inj head
    exact ⟨Option.some.inj (path.symm.trans path'), same own ▸ holds⟩

/-- Every endpoint runs what its own declaration names, whatever stands above it. -/
theorem compile_chains (compiled : compile registry (.root defaults) tree = .ok model) :
    List.Forall₂ (fun d e => ChainsFollow registry d.handlers.namesFor d.filters.namesFor e)
      tree.values model.values :=
  Tree.forall₂_values
    ((compile_own Compiled.chainsFollow compiled).imp fun _ _ follow => follow.2)

end Endpoint

end EndpointTree
