import EndpointTree.CommandLine.Report
import EndpointTree.Proofs.Endpoint.Handlers
import EndpointTree.Proofs.Serving.FieldBoundary
import EndpointTree.Proofs.Serving.Routability

/-!
# Where chains are run and listed

The chain of a method is made once, and both the server and the listing of routes go by it: an
endpoint has a route if one of its chains is not empty, a method is listed if its own is not,
and what a call runs is the chain of its method.

* `Serving.RouteTable.leadsTo_foldlM`: what a table of routes leads to.
* `Serving.Application.leadsTo_iff`: the endpoints that a table leads to are those with
  something to run.
* `Serving.chains_follow_declared_names` has all of it for trees that compile.
-/

namespace EndpointTree

namespace Endpoint

/-- A method is served where it has anything to run. -/
theorem isServed_iff {e : Endpoint} {m : HttpMethod} : e.isServed m = true ↔ e.chain m ≠ [] := by
  rw [isServed, chain]
  cases e.handlers m <;> cases e.filters m <;> split <;> simp

theorem mem_servedMethods_iff {e : Endpoint} {m : HttpMethod} :
    m ∈ e.servedMethods ↔ e.chain m ≠ [] := by
  rw [servedMethods, List.mem_filter, isServed_iff]
  exact and_iff_right m.mem_all

theorem servedMethods_eq (e : Endpoint) :
    e.servedMethods = HttpMethod.all.filter fun m => e.chain m ≠ [] :=
  List.filter_congr fun m _ => by rw [Bool.eq_iff_iff, isServed_iff, decide_eq_true_eq]

end Endpoint

namespace Serving

/-! ## Routes -/

/-- The endpoint that a destination leads to. -/
def Destination.endpoint? : Destination → Option Endpoint
  | .endpoint e => some e
  | .health => none
  | .channels beside => beside

namespace RouteTable

/-- The endpoint that a path leads to, if it leads anywhere. -/
def leadsTo (table : RouteTable) (path : String) : Option (Option Endpoint) :=
  (table.destinations.lookup path).map Destination.endpoint?

/-- A path that is taken keeps its destination, and a new one leads to its own. -/
theorem leadsTo_add? {table next : RouteTable} {path : String} {destination : Destination}
    (added : table.add? path destination = some next) (q : String) :
    next.leadsTo q =
      (table.leadsTo q).or (if q = path then some destination.endpoint? else none) := by
  rw [add?] at added
  split at added
  · next earlier held =>
    -- a path can only be taken twice by an endpoint and by the entrance beside it
    obtain ⟨joined, join, added⟩ := Option.bind_eq_some_iff.mp added
    cases added
    rw [leadsTo, leadsTo, Pairs.lookup_put]
    by_cases here : q = path
    · subst here
      rw [if_pos rfl, held]
      unfold Destination.join? at join
      split at join <;> cases join
      rfl
    · rw [if_neg here, if_neg here, Option.or_none]
  · next free =>
    obtain ⟨pattern, -, added⟩ := Option.bind_eq_some_iff.mp added
    obtain ⟨tree, -, added⟩ := Option.bind_eq_some_iff.mp added
    cases added
    rw [leadsTo, leadsTo, Pairs.lookup_put]
    by_cases here : q = path
    · subst here
      rw [if_pos rfl, if_pos rfl, free]
      rfl
    · rw [if_neg here, if_neg here, Option.or_none]

/-- A table leads a path to where the first of its routes leads. -/
theorem leadsTo_foldlM {routes : List (String × Destination)} {table last : RouteTable}
    (added : routes.foldlM (fun table (path, destination) => table.add? path destination) table =
      some last) (q : String) :
    last.leadsTo q = (table.leadsTo q).or ((routes.lookup q).map Destination.endpoint?) := by
  induction routes generalizing table with
  | nil =>
    cases added
    exact Option.or_none.symm
  | cons route rest ih =>
    obtain ⟨path, destination⟩ := route
    rw [List.foldlM_cons] at added
    obtain ⟨next, here, added⟩ := Option.bind_eq_some_iff.mp added
    rw [ih added, leadsTo_add? here, Option.or_assoc, Dict.lookup_cons_ite]
    by_cases first : q = path <;> simp [first]

end RouteTable

namespace Application

variable {app : Application} {e : Endpoint}

/-- An endpoint is served where one of its methods is. -/
theorem mem_served_iff : e ∈ app.served ↔ e ∈ app.model.values ∧ ∃ m, e.chain m ≠ [] := by
  rw [served, List.mem_filter, Bool.not_eq_true', List.isEmpty_eq_false_iff_exists_mem]
  simp only [Endpoint.mem_servedMethods_iff]

/-- Each endpoint that is served has one route, at its path. -/
theorem mem_routes_iff {path : String} :
    (path, .endpoint e) ∈ app.routes ↔ e ∈ app.served ∧ path = e.path := by
  rw [routes, List.append_assoc, List.mem_append, List.mem_map]
  constructor
  · intro route
    rcases route with ⟨e', member, same⟩ | other
    · cases same
      exact ⟨member, rfl⟩
    · split at other <;> split at other <;> simp at other
  · intro holds
    obtain ⟨member, rfl⟩ := holds
    exact .inl ⟨e, member, rfl⟩

/-- Only an endpoint's own route leads to it. -/
theorem endpoint_of_mem_routes {path : String} {destination : Destination}
    (member : (path, destination) ∈ app.routes) (leads : destination.endpoint? = some e) :
    destination = .endpoint e := by
  cases destination with
  | endpoint e' => exact congrArg Destination.endpoint (Option.some.inj leads)
  | health => cases leads
  | channels beside =>
    obtain rfl : beside = some e := leads
    rw [routes] at member
    split at member <;> split at member <;> simp at member

/-- A path leads to its endpoint just where that has anything to run. -/
theorem leadsTo_iff {table : RouteTable} (routed : app.routes? = some table)
    (member : e ∈ app.model.values) :
    table.leadsTo e.path = some (some e) ↔ ∃ m, e.chain m ≠ [] := by
  have distinct := nodup_of_routes? (Option.isSome_of_eq_some routed)
  rw [routes?] at routed
  split at routed
  case isFalse => cases routed
  have leads : table.leadsTo e.path = (app.routes.lookup e.path).map Destination.endpoint? :=
    RouteTable.leadsTo_foldlM routed e.path
  rw [leads]
  constructor
  · intro found
    obtain ⟨destination, found, there⟩ := Option.map_eq_some_iff.mp found
    have route := mem_of_lookup found
    rw [endpoint_of_mem_routes route there] at route
    exact (mem_served_iff.mp (mem_routes_iff.mp route).1).2
  · intro runs
    have served : (e.path, Destination.endpoint e) ∈
        app.served.map fun e => (e.path, Destination.endpoint e) :=
      List.mem_map_of_mem (mem_served_iff.mpr ⟨member, runs⟩)
    have found := lookup_of_mem (by rwa [List.map_map]) served
    rw [routes, List.append_assoc, List.lookup_append, found]
    rfl

end Application

/-! ## Listings -/

open Declaration (Source)
open Endpoint (ChainsFollow)

variable {registry : Registry} {defaults : CorsOptions} {tree : Tree Declaration} {model : Model}

/-- The methods of an endpoint that a document gives something to run, with the names of it. -/
def rowsOf (s : Source) : List (HttpMethod × String × List String) :=
  (HttpMethod.all.filter fun m => s.chain m ≠ []).map fun m => (m, s.path, s.chain m)

/-- The rows of an endpoint are those of its source. -/
theorem rows_eq {s : Source} {e : Endpoint} (path : e.path = s.path)
    (follow : ChainsFollow registry s.handlers s.filters e) :
    (e.servedMethods.map fun m => (m, e.path, Chain.names (e.chain m))) = rowsOf s := by
  have names (m : HttpMethod) : Chain.names (e.chain m) = s.chain m := (follow.chain m).names
  have served (m : HttpMethod) : e.chain m ≠ [] ↔ s.chain m ≠ [] := by
    rw [← names, Chain.names, ne_eq, ne_eq, List.map_eq_nil_iff]
  simp only [Endpoint.servedMethods_eq, rowsOf, path, names, served]

/-- The listing of routes has the rows of the document, in its order. -/
theorem served_eq_rows {sources : List Source}
    (follow : List.Forall₂ (fun s e => e.path = s.path ∧ ChainsFollow registry s.handlers s.filters e)
      sources model.values) :
    (CommandLine.Report.served model).map (fun (m, e, steps) => (m, e.path, steps)) =
      sources.flatMap rowsOf := by
  rw [CommandLine.Report.served, List.map_flatMap,
    flatMap_eq_of_forall₂ (fun holds => (rows_eq holds.1 holds.2).symm) follow]
  simp only [List.map_map, Function.comp_def]

/-- What the server does with the chains of an endpoint: a method is registered if its chain is
not empty, the endpoint has a route if one of them is not, in whatever application its model is
served, and what a call runs is the chain of its method. -/
structure GoesByChains (model : Model) (e : Endpoint) : Prop where
  registered : ∀ m, m ∈ e.servedMethods ↔ e.chain m ≠ []
  routed : ∀ app : Application, app.model = model →
    ((e.path, .endpoint e) ∈ app.routes ↔ ∃ m, e.chain m ≠ [])
  ledTo : ∀ (app : Application) table, app.model = model → app.routes? = some table →
    (table.leadsTo e.path = some (some e) ↔ ∃ m, e.chain m ≠ [])
  run : ∀ verifier crossOrigin call m auth input,
    plan verifier crossOrigin e call = .run m auth input → ∀ store,
      let result :=
        Chain.run (e.chain m) (cleanInput e m auth input) (exchange e m call auth store)
      call.method = m.name ∧
        dispatch verifier crossOrigin e call store = (conclude e m result, result.2.store)

/-- Routes, methods and rows of an endpoint go by the same chains. -/
theorem goesByChains {e : Endpoint} (member : e ∈ model.values) : GoesByChains model e where
  registered _ := Endpoint.mem_servedMethods_iff
  routed app same := by
    subst same
    rw [Application.mem_routes_iff, Application.mem_served_iff, and_iff_left rfl]
    exact and_iff_right member
  ledTo app table same routed := by
    subst same
    exact Application.leadsTo_iff routed member
  run verifier crossOrigin call m auth input planned store := by
    refine ⟨(exists_of_plan_eq_run planned).1, ?_⟩
    rw [dispatch, planned, perform, runChain]

/-- In every tree that compiles, the handlers of a method are those that its own endpoint names
for it: under the method's own key, else under the key of its group, whatever stands above the
endpoint and in whatever order the keys are written; and so are its filters. The chain of a
read is its handlers and then its filters, that of a write its filters and then its handlers.
By these chains the server routes and runs, and by them the routes are listed. -/
theorem chains_follow_declared_names
    (compiled : Endpoint.compile registry (.root defaults) tree = .ok model) :
    List.Forall₂ (fun d e => ChainsFollow registry d.handlers.namesFor d.filters.namesFor e)
        tree.values model.values ∧
      (∀ raw, Declaration.ofJson "/" "" raw = .ok tree →
        List.Forall₂ (fun s e => e.path = s.path ∧ ChainsFollow registry s.handlers s.filters e)
            (Declaration.sources "/" raw) model.values ∧
          (CommandLine.Report.served model).map (fun (m, e, steps) => (m, e.path, steps)) =
            (Declaration.sources "/" raw).flatMap rowsOf) ∧
      (∀ keys keys' : List (String × Json), keys.Perm keys' → (keys.map (·.1)).Nodup →
        Declaration.namesUnder keys = Declaration.namesUnder keys') ∧
      ∀ e ∈ model.values, GoesByChains model e := by
  refine ⟨Endpoint.compile_chains compiled, fun raw read => ?_,
    fun _ _ => Declaration.namesUnder_perm, fun _ => goesByChains⟩
  have follow : List.Forall₂
      (fun s e => e.path = s.path ∧ ChainsFollow registry s.handlers s.filters e)
      (Declaration.sources "/" raw) model.values :=
    @Endpoint.compile_own_at_sources registry defaults tree model _
      (fun names => ChainsFollow registry names.1 names.2)
      (fun d => (d.handlers.namesFor, d.filters.namesFor)) (fun s => (s.handlers, s.filters))
      Endpoint.Compiled.chainsFollow
      (fun own => Prod.ext own.namesFor_handlers own.namesFor_filters) raw read compiled
  exact ⟨follow, served_eq_rows follow⟩

/-- An empty list of its own takes `HEAD` out of the group, and the endpoint below inherits
nothing. -/
theorem empty_list_overrides_group :
    let registry := (Registry.empty.addHandler "list" fun data x => (.proceed data, x)).addHandler
      "mask" fun data x => (.proceed data, x)
    let handlers : Json := .object [("read", .string "list"), ("HEAD", .array [])]
    let filters : Json := .object [("POST", .string "mask"), ("GET", .string "mask")]
    let raw : Json := .object
      [("handlers", handlers), ("filters", filters), ("/notes", .object [("auth", .bool true)])]
    ∃ tree model, Declaration.ofJson "/" "" raw = .ok tree ∧
      Endpoint.compile registry (.root {}) tree = .ok model ∧
      (CommandLine.Report.served model).map (fun (m, e, steps) => (m, e.path, steps)) =
        [(.get, "/", ["list", "mask"]), (.options, "/", ["list"]), (.post, "/", ["mask"])] := by
  intro registry handlers filters raw
  refine ⟨_, _, rfl, rfl, ?_⟩
  have rows : (Declaration.sources "/" raw).flatMap rowsOf =
      [(.get, "/", ["list", "mask"]), (.options, "/", ["list"]), (.post, "/", ["mask"])] := by
    decide +kernel
  rw [← rows]
  exact ((@chains_follow_declared_names registry {} _ _ rfl).2.1 raw rfl).2

end Serving

end EndpointTree
