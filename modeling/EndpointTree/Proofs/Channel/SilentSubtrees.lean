import EndpointTree.Proofs.Channel.Routing
import EndpointTree.Proofs.Channel.Visits

/-!
# Subtrees without a channel handler

The table of a model leaves out every subtree without a channel handler. A table that
lists these endpoints too would serve them: ask for a credential, if their entry does, and
keep the connection open without ever running a handler. Left out, they are as good as not
there: a later endpoint may serve their namespaces, and if none does, no connection is
available.

* `Session.own_serve`: a connection runs the handlers of its own route only.
* `Channel.route?_tableOf_eq`: where a handler can be reached from the first endpoint that
  fits, both tables find the same route.
* `Channel.route?_tableOf_of_silent` says where the table goes on where none can.
-/

namespace EndpointTree

theorem ChannelHandlers.eq_empty_of_isEmpty {h : ChannelHandlers} (empty : h.isEmpty = true) :
    h = {} := by
  obtain ⟨connect, message, disconnect⟩ := h
  simp only [isEmpty, Bool.and_eq_true, List.isEmpty_iff] at empty
  obtain ⟨⟨rfl, rfl⟩, rfl⟩ := empty
  rfl

namespace Channel

/-! ## Handlers of a connection -/

/-- An action runs no handlers but those of its stage among these. -/
def Action.RunsOf (h : ChannelHandlers) : Action → Prop
  | .run stage handlers _ _ => handlers = stage.handlers h
  | .send _ => True

namespace Session

/-- A session that serves a visit serves one with these handlers. -/
def Keeps (h : ChannelHandlers) : Session → Prop
  | .waiting visit _ _ => visit.handlers = h
  | .dispatched visit => visit.handlers = h
  | .ended _ => True

/-- A session and its actions keep to these handlers. -/
def Own (h : ChannelHandlers) (result : Session × List Action) : Prop :=
  result.1.Keeps h ∧ ∀ a ∈ result.2, a.RunsOf h

/-- A session runs handlers of its own route alone. -/
theorem AsksFor.own {v : Visit} {result : Session × List Action} (asks : AsksFor v result) :
    Own v.handlers result := by
  obtain ⟨s, actions⟩ := result
  obtain ⟨visits, made⟩ := asks
  refine ⟨?_, fun a member => ?_⟩
  · cases s with
    | waiting visit r deadline => exact congrArg Visit.handlers visits
    | dispatched visit =>
      obtain ⟨auth, rfl⟩ := visits
      exact rfl
    | ended how => exact trivial
  · cases a with
    | send outbound => exact trivial
    | run stage handlers input context => exact (made _ member).1

/-- A connection runs the handlers of its own route, each list in its own stage. -/
theorem own_serve {table : Table} {namespaceText : String} {route : Route} {params : Dict String}
    (found : route? table namespaceText = some (route, params)) (verifier : Verifier)
    (timeout now : Nat) (query : Dict String) (inputs : List (Nat × Input)) :
    Own route.handlers (serve verifier table timeout now namespaceText query inputs) :=
  (asksFor_serve found verifier timeout now query inputs).own

/-- Serving a connection depends on the route of its namespace alone. -/
theorem serve_congr {table table' : Table} {namespaceText : String}
    (same : route? table namespaceText = route? table' namespaceText) (verifier : Verifier)
    (timeout now : Nat) (query : Dict String) (inputs : List (Nat × Input)) :
    serve verifier table timeout now namespaceText query inputs =
      serve verifier table' timeout now namespaceText query inputs := by
  rw [serve, serve, start, start, same]

/-- A refusal is all that happens, whatever comes in behind it. -/
theorem serve_of_refused {table : Table} {timeout now : Nat} {namespaceText : String}
    {query : Dict String} (refused : start table timeout now namespaceText query = refuse)
    (verifier : Verifier) (inputs : List (Nat × Input)) :
    serve verifier table timeout now namespaceText query inputs = refuse := by
  rw [serve, refused, andThen_eq, refuse, run_ended]
  rfl

/-- A connection whose route makes a requirement does not end as not available. -/
theorem end?_serve_of_requires {table : Table} {namespaceText : String} {route : Route}
    {params : Dict String} {r : Requirement}
    (requires : Requires table namespaceText route params r) (verifier : Verifier)
    (timeout now : Nat) (query : Dict String) (inputs : List (Nat × Input)) :
    (serve verifier table timeout now namespaceText query inputs).1.end? ≠
      some .notAvailable := by
  have course := serve_course verifier table timeout now namespaceText query inputs
  generalize serve verifier table timeout now namespaceText query inputs = result at course ⊢
  obtain ⟨last, actions⟩ := result
  have ofServes : Serves inputs last → last.end? ≠ some .notAvailable := by
    intro serves
    rw [Serves] at serves
    split at serves
    · rw [serves]
      decide
    · obtain ⟨visit, rfl⟩ := serves
      exact (Option.some_ne_none _).symm
  cases course with
  | refused none_requires => exact absurd requires (none_requires route params r)
  | timedOut => decide
  | abandoned => decide
  | authenticated _ _ _ serves => exact ofServes serves
  | anonymous _ _ serves => exact ofServes serves

end Session

/-! ## The table of all endpoints -/

/-- The table that lists every endpoint of a model. -/
def fullTable (model : Model) : Table := routesOf model.subtrees

/-- The endpoint on top of a tree fits a namespace. -/
def FitsTop (namespaceText : String) (t : Model) : Prop :=
  ∃ bindings, (Route.ofEndpoint t.value).Serves namespaceText bindings

/-- Among the trees that count, the first with an endpoint on top that fits a namespace,
and the trees that come after it. -/
def FirstFit (counts : Model → Bool) (trees : List Model) (namespaceText : String) (t : Model)
    (after : List Model) : Prop :=
  ∃ before, trees = before ++ t :: after ∧
    (∀ s ∈ before, counts s = true → ¬ FitsTop namespaceText s) ∧
    counts t = true ∧ FitsTop namespaceText t

/-- The first endpoint of a model that fits a namespace stands on top of this tree. -/
def FirstAt (model : Model) (namespaceText : String) (t : Model) (after : List Model) : Prop :=
  FirstFit (fun _ => true) model.subtrees namespaceText t after

section Tables

variable {counts : Model → Bool} {trees after : List Model} {model t : Model}
  {namespaceText : String}

theorem route?_routesOf_eq_none (unfit : ∀ s ∈ trees, ¬ FitsTop namespaceText s) :
    route? (routesOf trees) namespaceText = none := by
  refine (route?_eq_none_iff fun _ member => pattern_of_mem_routesOf member).mpr ?_
  intro route member bindings serves
  obtain ⟨s, listed, rfl⟩ := List.mem_map.mp member
  exact unfit s listed ⟨bindings, serves⟩

/-- Trees that do not fit can be left out of the table. -/
theorem route?_append_of_unfit (unfit : ∀ s ∈ trees, ¬ FitsTop namespaceText s)
    (further : List Model) :
    route? (routesOf (trees ++ further)) namespaceText =
      route? (routesOf further) namespaceText := by
  have nowhere := route?_routesOf_eq_none unfit
  rw [route?] at nowhere
  rw [routesOf_append, route?, List.findSome?_append]
  exact nowhere ▸ Option.none_or

/-- The first tree that fits is the one that is found. -/
theorem exists_route?_cons (fits : FitsTop namespaceText t) :
    ∃ params, ∀ trees, route? (routesOf (t :: trees)) namespaceText =
      some (.ofEndpoint t.value, params) := by
  obtain ⟨bindings, serves⟩ := fits
  have taken : (Route.ofEndpoint t.value).pattern.params? (tidyNamespace namespaceText) =
      some (Dict.ofList bindings) :=
    (params?_eq_some_iff rfl).mpr ⟨bindings, serves, Dict.get?_ofList bindings⟩
  refine ⟨Dict.ofList bindings, fun trees => ?_⟩
  rw [routesOf, List.map_cons, route?, List.findSome?_cons, taken]
  rfl

/-- A look-up stops at the first tree that fits, and nothing around it has a say. -/
theorem route?_of_firstFit (first : FirstFit counts trees namespaceText t after) :
    ∃ params, route? (routesOf (trees.filter counts)) namespaceText =
        some (.ofEndpoint t.value, params) ∧
      route? [.ofEndpoint t.value] namespaceText = some (.ofEndpoint t.value, params) := by
  obtain ⟨before, rfl, earlier, counted, fits⟩ := first
  obtain ⟨params, found⟩ := exists_route?_cons fits
  have unfit : ∀ s ∈ before.filter counts, ¬ FitsTop namespaceText s := by
    intro s member
    obtain ⟨member, counted⟩ := List.mem_filter.mp member
    exact earlier s member counted
  refine ⟨params, ?_, found []⟩
  rw [List.filter_append, List.filter_cons_of_pos counted, route?_append_of_unfit unfit, found]

/-- The full table finds the first subtree that fits, silent or not. -/
theorem route?_fullTable (first : FirstAt model namespaceText t after) :
    ∃ params, route? (fullTable model) namespaceText = some (.ofEndpoint t.value, params) := by
  obtain ⟨params, found, -⟩ := route?_of_firstFit first
  rw [List.filter_true] at found
  exact ⟨params, found⟩

/-- Among the trees that count there is a first one that fits, or none fits. -/
theorem exists_firstFit_or_unfit (counts : Model → Bool) (trees : List Model)
    (namespaceText : String) :
    (∃ t after, FirstFit counts trees namespaceText t after) ∨
      ∀ s ∈ trees, counts s = true → ¬ FitsTop namespaceText s := by
  induction trees with
  | nil => exact .inr fun s member => absurd member List.not_mem_nil
  | cons s rest ih =>
    by_cases here : counts s = true ∧ FitsTop namespaceText s
    · exact .inl ⟨s, rest, [], rfl, fun _ member => absurd member List.not_mem_nil, here⟩
    · have passed : counts s = true → ¬ FitsTop namespaceText s :=
        fun counted fits => here ⟨counted, fits⟩
      rcases ih with ⟨t, after, before, rfl, earlier, first⟩ | unfit
      · exact .inl ⟨t, after, s :: before, rfl, List.forall_mem_cons.mpr ⟨passed, earlier⟩, first⟩
      · exact .inr (List.forall_mem_cons.mpr ⟨passed, unfit⟩)

/-- Where the first endpoint that fits, if any does, is above a channel handler, both tables
find the same route. -/
theorem route?_tableOf_eq
    (live : ∀ t after, FirstAt model namespaceText t after → t.hasRealtime = true) :
    route? (tableOf model) namespaceText = route? (fullTable model) namespaceText := by
  rw [tableOf_eq]
  rcases exists_firstFit_or_unfit (fun _ => true) model.subtrees namespaceText with
    ⟨t, after, first⟩ | unfit
  · have reached := live t after first
    obtain ⟨params, found, alone⟩ := route?_of_firstFit first
    obtain ⟨before, split, earlier, -, fits⟩ := first
    have firstLive : FirstFit Model.hasRealtime model.subtrees namespaceText t after :=
      ⟨before, split, fun s member _ => earlier s member rfl, reached, fits⟩
    obtain ⟨params', found', alone'⟩ := route?_of_firstFit firstLive
    rw [List.filter_true] at found
    rw [fullTable, found, found', ← alone, ← alone']
  · have nothing : route? (fullTable model) namespaceText = none :=
      route?_routesOf_eq_none fun s member => unfit s member rfl
    rw [nothing]
    exact route?_routesOf_eq_none fun s member => unfit s (List.mem_filter.mp member).1 rfl

/-- Behind a silent endpoint that fits first, a look-up goes on among the trees after it. -/
theorem route?_tableOf_of_silent (first : FirstAt model namespaceText t after)
    (silent : t.hasRealtime = false) :
    route? (tableOf model) namespaceText =
      route? (routesOf (after.filter Model.hasRealtime)) namespaceText := by
  obtain ⟨before, split, earlier, -, fits⟩ := first
  have unfit : ∀ s ∈ before.filter Model.hasRealtime, ¬ FitsTop namespaceText s :=
    fun s member => earlier s (List.mem_filter.mp member).1 rfl
  rw [tableOf_eq, split, List.filter_append, List.filter_cons_of_neg (Bool.not_eq_true _ ▸ silent),
    route?_append_of_unfit unfit]

/-- A silent subtree has no handlers at its top either. -/
theorem channel_of_silent (silent : t.hasRealtime = false) : t.value.channel = {} := by
  obtain ⟨e, children⟩ := t
  have empty : e.channel.isEmpty = true := by
    refine Bool.of_not_eq_false fun filled => ?_
    rw [Model.hasRealtime_iff.mpr ⟨e, List.mem_cons_self, filled⟩] at silent
    cases silent
  exact ChannelHandlers.eq_empty_of_isEmpty empty

end Tables

/-- Against the table, a connection goes as against the table of all endpoints, if the
first endpoint that fits its namespace is above a channel handler or none fits. A silent
endpoint that fits first would run no handlers. Left out, it makes way for the next one
above a handler; if there is none, the connection is refused, as it would have been only by
an entry that forbids it. -/
theorem silent_subtrees_are_not_served (model : Model) (verifier : Verifier) (timeout now : Nat)
    (namespaceText : String) (query : Dict String) (inputs : List (Nat × Session.Input)) :
    let serve := fun table => Session.serve verifier table timeout now namespaceText query inputs
    let served := serve (tableOf model)
    let full := serve (fullTable model)
    ((∀ t after, FirstAt model namespaceText t after → t.hasRealtime = true) → served = full) ∧
      ∀ t after, FirstAt model namespaceText t after → t.hasRealtime = false →
        (∀ a ∈ full.2, a.RunsOf {}) ∧
        (∀ s later, FirstFit Model.hasRealtime after namespaceText s later →
          served = serve [.ofEndpoint s.value]) ∧
        ((∀ s ∈ after, s.hasRealtime = true → ¬ FitsTop namespaceText s) →
          served = Session.refuse ∧
          (t.value.access .realTime = .forbidden → full = served) ∧
          (t.value.access .realTime ≠ .forbidden → full.1.end? ≠ served.1.end?)) := by
  intro serve served full
  constructor
  · intro live
    exact Session.serve_congr (route?_tableOf_eq live) verifier timeout now query inputs
  intro t after first silent
  obtain ⟨params, found⟩ := route?_fullTable first
  have goesOn := route?_tableOf_of_silent first silent
  refine ⟨?runsNothing, fun s later next => ?servedByNext, fun unfit => ?refused⟩
  case runsNothing =>
    have own := Session.own_serve found verifier timeout now query inputs
    have handlers : (Route.ofEndpoint t.value).handlers = {} := channel_of_silent silent
    rw [handlers] at own
    exact own.2
  case servedByNext =>
    obtain ⟨params, found, alone⟩ := route?_of_firstFit next
    have same : route? (tableOf model) namespaceText =
        route? [.ofEndpoint s.value] namespaceText := by
      rw [goesOn, found, alone]
    exact Session.serve_congr same verifier timeout now query inputs
  case refused =>
    have nowhere : route? (tableOf model) namespaceText = none := by
      rw [goesOn]
      refine route?_routesOf_eq_none fun s member => ?_
      obtain ⟨member, reached⟩ := List.mem_filter.mp member
      exact unfit s member reached
    have refused : served = Session.refuse :=
      Session.serve_of_refused (by rw [Session.start, nowhere]) verifier inputs
    refine ⟨refused, fun forbidden => ?_, fun allowed => ?_⟩
    · have entry : (Route.ofEndpoint t.value).access = .forbidden := forbidden
      rw [refused]
      refine Session.serve_of_refused ?_ verifier inputs
      simp only [Session.start, found, entry]
    · rw [refused]
      cases entry : t.value.access .realTime with
      | forbidden => exact absurd entry allowed
      | required r =>
        exact Session.end?_serve_of_requires ⟨found, entry⟩ verifier timeout now query inputs

/-- Left out of the table, an endpoint that would ask for a credential refuses. -/
theorem silent_endpoint_is_missed :
    let raw : Json := .object [("/quiet", .object []),
      ("/feed", .object [("realTime", .object [("connect", .string "observe")])])]
    let verifier : Verifier := fun _ => .error .notReadable
    ∃ tree model, Declaration.ofJson "/" "" raw = .ok tree ∧
      Endpoint.compile Registry.builtins (.root {}) tree = .ok model ∧
      Session.serve verifier (tableOf model) 5000 0 "/quiet" .empty [(0, .leave)] =
        (.ended .notAvailable,
          [.send (.message (unauthorized notAvailable)), .send .close]) ∧
      Session.serve verifier (fullTable model) 5000 0 "/quiet" .empty [(0, .leave)] =
        (.ended .abandoned, [.send (.message needAuthentication)]) :=
  ⟨_, _, rfl, rfl, rfl, rfl⟩

end Channel

end EndpointTree
