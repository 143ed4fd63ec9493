import EndpointTree.Channel.Observe
import EndpointTree.Channel.Table
import EndpointTree.Proofs.Channel.Segments
import EndpointTree.Proofs.Endpoint.Lineage

/-!
# Finding the route of a namespace

The table of a model lists, in the order of the tree, the endpoints from which a channel
handler can be reached. A namespace is served by the first of them whose path it fits,
segment by segment.

* `Channel.tableOf_eq` says which endpoints the table lists, and in what order;
  `Channel.compile_keys` that the order is the declared one.
* `Channel.route?_eq_some_iff` and `Channel.route?_eq_none_iff` are the two outcomes of a
  look-up.
-/

namespace EndpointTree

namespace Tree

variable {α : Type}

theorem subtrees_node (value : α) (children : List (Tree α)) :
    (node value children).subtrees = node value children :: subtreesOf children := by
  rw [subtrees]

mutual

/-- A test holds somewhere in a tree where it holds of a value that stands in it. -/
theorem anyValue_eq (test : α → Bool) : ∀ t : Tree α, t.anyValue test = t.values.any test
  | .node value children => by
    rw [anyValue, values_node, List.any_cons, anyValueOf_eq test children]

theorem anyValueOf_eq (test : α → Bool) :
    ∀ trees : List (Tree α), anyValueOf test trees = (valuesOf trees).any test
  | [] => rfl
  | t :: rest => by
    rw [anyValueOf, valuesOf_cons, List.any_append, anyValue_eq test t, anyValueOf_eq test rest]

end

mutual

/-- What stands in a subtree stands in the tree. -/
theorem mem_values_of_mem_subtrees {v : α} {s : Tree α} (stands : v ∈ s.values) :
    ∀ {t : Tree α}, s ∈ t.subtrees → v ∈ t.values
  | .node value children, member => by
    rw [subtrees_node] at member
    rcases List.mem_cons.mp member with rfl | member
    · exact stands
    · rw [values_node]
      exact List.mem_cons_of_mem _ (mem_valuesOf_of_mem_subtreesOf stands member)

/-- What stands in a subtree stands in the whole. -/
theorem mem_valuesOf_of_mem_subtreesOf {v : α} {s : Tree α} (stands : v ∈ s.values) :
    ∀ {trees : List (Tree α)}, s ∈ subtreesOf trees → v ∈ valuesOf trees
  | t :: rest, member => by
    rw [subtreesOf] at member
    rw [valuesOf_cons]
    rcases List.mem_append.mp member with member | member
    · exact List.mem_append_left _ (mem_values_of_mem_subtrees stands member)
    · exact List.mem_append_right _ (mem_valuesOf_of_mem_subtreesOf stands member)

end

end Tree

namespace Model

/-- A model is live where one of its endpoints has a handler for sessions. -/
theorem hasRealtime_iff {m : Model} :
    m.hasRealtime = true ↔ ∃ e ∈ m.values, e.channel.isEmpty = false := by
  rw [hasRealtime, Tree.anyValue_eq, List.any_eq_true]
  simp only [Bool.not_eq_true']

/-- A handler that can be reached from below can be reached from above. -/
theorem hasRealtime_of_mem_subtrees {s m : Model} (member : s ∈ m.subtrees)
    (live : s.hasRealtime = true) : m.hasRealtime = true := by
  obtain ⟨e, stands, filled⟩ := hasRealtime_iff.mp live
  exact hasRealtime_iff.mpr ⟨e, Tree.mem_values_of_mem_subtrees stands member, filled⟩

end Model

namespace Channel

/-! ## What the table lists -/

/-- The routes of the endpoints on top of trees. -/
def routesOf (trees : List Model) : Table := trees.map fun t => .ofEndpoint t.value

theorem routesOf_append (trees further : List Model) :
    routesOf (trees ++ further) = routesOf trees ++ routesOf further := List.map_append

theorem pattern_of_mem_routesOf {trees : List Model} {route : Route}
    (member : route ∈ routesOf trees) : route.pattern = .ofPath route.path := by
  obtain ⟨t, _, rfl⟩ := List.mem_map.mp member
  rfl

mutual

/-- The table lists the endpoints with a channel handler at or below them, in the order
of the tree. -/
theorem tableOf_eq : ∀ model : Model,
    tableOf model = routesOf (model.subtrees.filter Model.hasRealtime)
  | .node e children => by
    by_cases live : Model.hasRealtime (.node e children) = true
    · rw [tableOf, if_pos live, Tree.subtrees_node, List.filter_cons_of_pos live,
        tablesOf_eq children]
      rfl
    · -- below an endpoint without any handler there is none either
      have silent : ∀ t ∈ (Tree.node e children).subtrees, ¬ Model.hasRealtime t = true :=
        fun t member reached => live (Model.hasRealtime_of_mem_subtrees member reached)
      rw [tableOf, if_neg live, List.filter_eq_nil_iff.mpr silent]
      rfl

/-- The table lists the live subtrees, each before those below it. -/
theorem tablesOf_eq : ∀ models : List Model,
    tablesOf models = routesOf ((Tree.subtreesOf models).filter Model.hasRealtime)
  | [] => rfl
  | m :: rest => by
    rw [tablesOf, Tree.subtreesOf, List.filter_append, routesOf_append, tableOf_eq m,
      tablesOf_eq rest]

end

/-! ## Looking a namespace up -/

/-- The path of a route fits a namespace, with these bindings of its parameters. -/
def Route.Serves (route : Route) (namespaceText : String) (bindings : List (String × String)) :
    Prop :=
  Fits (pathSegments route.path) (namespaceSegments namespaceText) bindings

/-- A pattern matches where its route serves, with the last value under each key. -/
theorem params?_eq_some_iff {route : Route} (own : route.pattern = .ofPath route.path)
    {namespaceText : String} {params : Dict String} :
    route.pattern.params? (tidyNamespace namespaceText) = some params ↔
      ∃ bindings, route.Serves namespaceText bindings ∧
        ∀ key, params.get? key = lastUnder? key bindings := by
  rw [own, Pattern.params?_ofPath_iff]
  constructor
  · rintro ⟨bindings, fits, rfl⟩
    exact ⟨bindings, fits, Dict.get?_ofList bindings⟩
  · rintro ⟨bindings, fits, values⟩
    refine ⟨bindings, fits, Dict.ext_get? fun key => ?_⟩
    rw [Dict.get?_ofList, values]

/-- A pattern does not match where its route does not serve. -/
theorem params?_eq_none_iff {route : Route} (own : route.pattern = .ofPath route.path)
    {namespaceText : String} :
    route.pattern.params? (tidyNamespace namespaceText) = none ↔
      ∀ bindings, ¬ route.Serves namespaceText bindings := by
  rw [Option.eq_none_iff_forall_ne_some]
  constructor
  · intro none bindings fits
    exact none _ ((params?_eq_some_iff own).mpr ⟨bindings, fits, Dict.get?_ofList bindings⟩)
  · intro none params found
    obtain ⟨bindings, fits, _⟩ := (params?_eq_some_iff own).mp found
    exact none bindings fits

section Tables

variable {table : Table} {namespaceText : String}

/-- No route is found where none serves. -/
theorem route?_eq_none_iff (own : ∀ route ∈ table, route.pattern = .ofPath route.path) :
    route? table namespaceText = none ↔
      ∀ route ∈ table, ∀ bindings, ¬ route.Serves namespaceText bindings := by
  rw [route?, List.findSome?_eq_none_iff]
  refine forall₂_congr fun route member => ?_
  rw [Option.map_eq_none_iff, params?_eq_none_iff (own route member)]

/-- The route that is found fits, and none before it does. -/
theorem route?_eq_some_iff (own : ∀ route ∈ table, route.pattern = .ofPath route.path)
    {route : Route} {params : Dict String} :
    route? table namespaceText = some (route, params) ↔
      ∃ before after, table = before ++ route :: after ∧
        (∀ r ∈ before, ∀ bindings, ¬ r.Serves namespaceText bindings) ∧
        ∃ bindings, route.Serves namespaceText bindings ∧
          ∀ key, params.get? key = lastUnder? key bindings := by
  rw [route?, List.findSome?_eq_some_iff]
  constructor
  · rintro ⟨before, found, after, rfl, here, earlier⟩
    obtain ⟨_, taken, same⟩ := Option.map_eq_some_iff.mp here
    cases same
    refine ⟨before, after, rfl, fun r member => ?_, ?_⟩
    · exact (params?_eq_none_iff (own r (List.mem_append_left _ member))).mp
        (Option.map_eq_none_iff.mp (earlier r member))
    · exact (params?_eq_some_iff (own route (by simp))).mp taken
  · rintro ⟨before, after, rfl, earlier, fits⟩
    refine ⟨before, route, after, rfl, ?_, fun r member => ?_⟩
    · rw [(params?_eq_some_iff (own route (by simp))).mpr fits]
      rfl
    · rw [(params?_eq_none_iff (own r (List.mem_append_left _ member))).mpr (earlier r member)]
      rfl

end Tables

/-! ## Compiled trees -/

/-- A compiled tree keeps the keys of the declared one, each under the same keys and in the
same order. -/
theorem compile_keys {registry : Registry} {above : Endpoint.Inherited} {tree : Tree Declaration}
    {model : Model} (compiled : Endpoint.compile registry above tree = .ok model) :
    (model.lineages []).map (·.map Endpoint.key) =
      (tree.lineages []).map (·.map Declaration.key) := by
  have related : List.Forall₂ (fun ds es => es.map Endpoint.key = ds.map Declaration.key)
      (tree.lineages []) (model.lineages []) :=
    Endpoint.compile_lineages (fun _ ds es => es.map Endpoint.key = ds.map Declaration.key)
      (fun {above ds es d e} same step => by
        have keys : (e :: es).map Endpoint.key = (d :: ds).map Declaration.key := by
          rw [List.map_cons, List.map_cons, same, step.key]
        exact ⟨keys, keys⟩)
      rfl compiled
  have mapped : List.Forall₂ (· = ·) ((model.lineages []).map (·.map Endpoint.key))
      ((tree.lineages []).map (·.map Declaration.key)) := by
    rw [List.forall₂_map_left_iff, List.forall₂_map_right_iff]
    exact related.flip
  rwa [List.forall₂_eq_eq_eq] at mapped

/-- A namespace is served by the first route of the table whose path it fits, and by none
only if it fits no path of the table. The expression that is written for a route says the
same, and the table lists a compiled tree in its declared order. -/
theorem first_fitting_route_serves {registry : Registry} {defaults : CorsOptions}
    {tree : Tree Declaration} {model : Model}
    (compiled : Endpoint.compile registry (.root defaults) tree = .ok model)
    (namespaceText : String) :
    (∀ route params, route? (tableOf model) namespaceText = some (route, params) ↔
      ∃ before after, tableOf model = before ++ route :: after ∧
        (∀ r ∈ before, ∀ bindings, ¬ r.Serves namespaceText bindings) ∧
        ∃ bindings, route.Serves namespaceText bindings ∧
          ∀ key, params.get? key = lastUnder? key bindings) ∧
    (route? (tableOf model) namespaceText = none ↔
      ∀ route ∈ tableOf model, ∀ bindings, ¬ route.Serves namespaceText bindings) ∧
    (∀ route ∈ tableOf model, ∀ text groups,
      Pattern.Matches route.pattern.text.toList text groups ↔
        Pattern.groups? route.pattern.parts text = some groups) ∧
    tableOf model = routesOf (model.subtrees.filter Model.hasRealtime) ∧
    (model.lineages []).map (·.map Endpoint.key) =
      (tree.lineages []).map (·.map Declaration.key) := by
  have own : ∀ route ∈ tableOf model, route.pattern = .ofPath route.path := by
    rw [tableOf_eq]
    exact fun _ member => pattern_of_mem_routesOf member
  refine ⟨fun _ _ => route?_eq_some_iff own, route?_eq_none_iff own, ?_, tableOf_eq model,
    compile_keys compiled⟩
  intro route member text groups
  rw [own route member]
  exact Pattern.expression_iff_groups? route.path

theorem parameter_serves_before_later_literal :
    let live : String × Json := ("realTime", .object [("connect", .string "observe")])
    let raw : Json :=
      .object [("/todos", .object [live, ("/:id", .object [live]), ("/mine", .object [live])])]
    ∃ tree model route params, Declaration.ofJson "/" "" raw = .ok tree ∧
      Endpoint.compile Registry.builtins (.root {}) tree = .ok model ∧
      route? (tableOf model) "todos/mine/" = some (route, params) ∧ route.path = "/todos/:id" ∧
      ∃ bindings, route.Serves "todos/mine/" bindings ∧
        ∀ key, params.get? key = lastUnder? key bindings := by
  intro live raw
  obtain ⟨tree, model, route, params, read, compiled, found, path⟩ :
      ∃ tree model route params, Declaration.ofJson "/" "" raw = .ok tree ∧
        Endpoint.compile Registry.builtins (.root {}) tree = .ok model ∧
        route? (tableOf model) "todos/mine/" = some (route, params) ∧ route.path = "/todos/:id" :=
    ⟨_, _, _, _, rfl, rfl, rfl, rfl⟩
  obtain ⟨_, _, _, _, fits⟩ :=
    ((first_fitting_route_serves compiled "todos/mine/").1 route params).mp found
  exact ⟨tree, model, route, params, read, compiled, found, path, fits⟩

end Channel

end EndpointTree
