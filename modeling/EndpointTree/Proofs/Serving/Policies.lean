import EndpointTree.Channel.Observe
import EndpointTree.Proofs.Channel.Delivery
import EndpointTree.Proofs.Serving.FieldBoundary

/-!
# Where policies are asked

Policies are steps of the gate, which decides about requests. A channel has a handshake of
its own, which asks for a credential and for roles and for nothing else: it is the same
session whatever policies the entry of its route lists. So a policy that always stops
closes every method of an endpoint that lists it, and leaves its channel open.

* `Session.serve_withPolicies`: the policies of a table have no say in a session.
* `Session.meets_of_run` and `Session.exists_run_of_meets`: when a connection is dispatched.
* `plan_of_stopped`: a request is answered without a run if its requirement lists a policy
  that stops.
-/

namespace EndpointTree

namespace AuthEntry

/-- The entry with other policies. -/
def withPolicies (policies : List Policy) : AuthEntry → AuthEntry
  | .forbidden => .forbidden
  | .required r => .required { r with policies }

end AuthEntry

namespace Channel

/-- The route with other policies. -/
def Route.withPolicies (choose : Route → List Policy) (route : Route) : Route :=
  { route with access := route.access.withPolicies (choose route) }

theorem route?_withPolicies (choose : Route → List Policy) (table : Table)
    (namespaceText : String) :
    route? (table.map (Route.withPolicies choose)) namespaceText =
      (route? table namespaceText).map fun found => (found.1.withPolicies choose, found.2) := by
  rw [route?, route?, List.findSome?_map, List.map_findSome?]
  refine congrArg (List.findSome? · table) (funext fun route => ?_)
  show Option.map _ (route.pattern.params? _) = Option.map _ (Option.map _ _)
  rw [Option.map_map]
  rfl

/-- What comes in meets a requirement: no credential is asked for, or the first valid one is
in time. -/
def Inbound.Meets (verifier : Verifier) (r : Requirement) (timeout : Nat) (i : Inbound) : Prop :=
  r.auth = false ∨ ∃ t auth, i.firstCredential? verifier r = some (t, auth) ∧ t < timeout

namespace Session

variable {verifier : Verifier} {visit : Visit} {r : Requirement} {deadline : Nat}

theorem verdict?_withPolicies (policies : List Policy) (now : Nat) (input : Input) :
    verdict? verifier { r with policies } deadline now input =
      verdict? verifier r deadline now input := by
  cases input <;> rfl

/-- A wait goes the same way whatever policies are listed. -/
theorem run_waiting_withPolicies (policies : List Policy) (inputs : List (Nat × Input)) :
    (waiting visit { r with policies } deadline).run verifier (withDeadline deadline inputs) =
      (waiting visit r deadline).run verifier (withDeadline deadline inputs) := by
  obtain ⟨⟨time, how⟩, ends⟩ : ∃ result,
      (waiting visit r deadline).handshake verifier (withDeadline deadline inputs) = some result :=
    ⟨_, handshake_withDeadline inputs⟩
  obtain ⟨before, input, after, split, quiet, verdict, runEq⟩ := run_waiting ends
  -- Both wait until the same input, and what becomes of them then does not show the policies.
  have quiet' : ∀ p ∈ before,
      verdict? verifier { r with policies } deadline p.1 p.2 = none := by
    intro p member
    rw [verdict?_withPolicies, quiet p member]
  have settled : settle visit { r with policies } deadline (some how) =
      settle visit r deadline (some how) := by
    cases how <;> rfl
  rw [runEq, split, run_append, run_waiting_of_verdict?_none quiet', andThen_nil, run,
    step_waiting, verdict?_withPolicies, verdict, settled]

/-- The policies of a table have no say in a session. -/
theorem serve_withPolicies (choose : Route → List Policy) (verifier : Verifier) (table : Table)
    (timeout now : Nat) (namespaceText : String) (query : Dict String)
    (inputs : List (Nat × Input)) :
    serve verifier (table.map (Route.withPolicies choose)) timeout now namespaceText query inputs =
      serve verifier table timeout now namespaceText query inputs := by
  rw [serve, serve, start, start, route?_withPolicies]
  cases route? table namespaceText with
  | none => rfl
  | some found =>
    obtain ⟨route, params⟩ := found
    simp only [Option.map_some, Route.withPolicies]
    cases route.access with
    | forbidden => rfl
    | required r =>
      simp only [AuthEntry.withPolicies]
      split
      · rw [andThen_eq, andThen_eq]
        rw [run_waiting_withPolicies]
        rfl
      · rfl

/-! ## When a connection is dispatched -/

section Dispatched

variable {table : Table} {timeout now : Nat} {namespaceText : String} {query : Dict String}
  {i : Inbound} {route : Route} {params : Dict String}

/-- Where handlers run, what comes in meets the requirement. -/
theorem meets_of_run (requires : Requires table namespaceText route params r) {a : Action}
    (asked : a ∈ (serve verifier table timeout now namespaceText query (i.inputs now)).2)
    (runs : a.isRun = true) : i.Meets verifier r timeout := by
  obtain ⟨auth, later, dispatches⟩ := dispatches_of_run requires asked runs
  cases dispatches with
  | anonymous free => exact .inl free
  | authenticated _ presents =>
    obtain ⟨t, first, early⟩ := presents.firstCredential?
    exact .inr ⟨t, _, first, early⟩

/-- Where what comes in meets the requirement, the connect handlers run. -/
theorem exists_run_of_meets (requires : Requires table namespaceText route params r)
    (meets : i.Meets verifier r timeout) :
    ∃ input context, .run .connect route.handlers.connect input context ∈
      (serve verifier table timeout now namespaceText query (i.inputs now)).2 := by
  have dispatched : ∃ auth later, i.Dispatches verifier r timeout auth later := by
    cases asks : r.auth with
    | false => exact ⟨_, _, .anonymous asks⟩
    | true =>
      obtain ⟨t, auth, first, early⟩ :=
        meets.resolve_left fun free => Bool.false_ne_true (free.symm.trans asks)
      obtain ⟨token, claims, later, presents, -⟩ := i.presents_of_firstCredential? first early
      exact ⟨_, later, .authenticated asks presents⟩
  obtain ⟨auth, later, dispatches⟩ := dispatched
  rw [serve_of_dispatches requires dispatches]
  exact ⟨_, _, List.mem_append_right _ List.mem_cons_self⟩

end Dispatched

end Session

end Channel

/-! ## Policies of a request -/

/-- Whatever it is shown, the policy stops. -/
def Policy.AlwaysStops (policy : Policy) : Prop :=
  ∀ verifier ctx, ∃ stop, (policy.check verifier ctx).1 = .stop stop

theorem Gate.Passes.proceeds {verifier : Verifier} {policies : List Policy} {policy : Policy}
    {ctx : PolicyContext} {auth : AuthContext} (passes : Passes verifier policies ctx auth)
    (listed : policy ∈ policies) : ∃ ctx, (policy.check verifier ctx).1 = .proceed () := by
  induction passes with
  | done ctx => cases listed
  | next checked _ ih =>
    rcases List.mem_cons.mp listed with rfl | listed
    · exact ⟨_, congrArg Prod.fst checked⟩
    · exact ih listed

namespace Serving

/-- A call is answered without a run if its method lists a policy that always stops. -/
theorem plan_of_stopped {e : Endpoint} {m : HttpMethod} {r : Requirement} {policy : Policy}
    (entry : e.access m = .required r) (listed : policy ∈ r.policies)
    (stops : policy.AlwaysStops) {call : Call} (called : call.method = m.name)
    (verifier : Verifier) (crossOrigin : Bool) :
    ∃ reply, plan verifier crossOrigin e call = .answer reply := by
  cases planned : plan verifier crossOrigin e call with
  | answer reply => exact ⟨reply, rfl⟩
  | run m' auth input =>
    obtain ⟨called', -, authorized⟩ := exists_of_plan_eq_run planned
    obtain rfl : m' = m := HttpMethod.name_injective (called'.symm.trans called)
    have passed : Gate.runPolicies verifier r.policies
        (Gate.startContext r (gateRequest e m' call)) = .ok auth := by
      have asked : e.access (gateRequest e m' call).method = .required r := entry
      simp only [Gate.authorize, asked] at authorized
      split at authorized
      · next passed =>
        cases authorized
        exact passed
      · cases authorized
    obtain ⟨ctx, proceeds⟩ := (Gate.runPolicies_eq_ok_iff.mp passed).proceeds listed
    obtain ⟨stop, stopped⟩ := stops verifier ctx
    rw [proceeds] at stopped
    cases stopped

/-- The policies that the entry of a channel lists are not asked: its handlers run if, and
only if, what comes in meets the requirement, and the session is the same with any other
policies. A policy that always stops thus leaves the channel as it is, while no step runs
for a method that lists it. -/
theorem policies_guard_methods_only {model : Model} {e : Endpoint} {r : Requirement}
    {namespaceText : String} {params : Dict String}
    (found : Channel.route? (Channel.tableOf model) namespaceText =
      some (.ofEndpoint e, params))
    (entry : e.access .realTime = .required r) (verifier : Verifier) (timeout now : Nat)
    (query : Dict String) (i : Channel.Inbound) :
    let serve := fun table => Channel.Session.serve verifier table timeout now namespaceText query
      (i.inputs now)
    let served := serve (Channel.tableOf model)
    (∀ stage handlers input context, .run stage handlers input context ∈ served.2 →
      handlers = stage.handlers e.channel ∧ i.Meets verifier r timeout) ∧
    (i.Meets verifier r timeout →
      ∃ input context, .run .connect e.channel.connect input context ∈ served.2) ∧
    (∀ choose, serve ((Channel.tableOf model).map (.withPolicies choose)) = served) ∧
    ∀ (m : HttpMethod) required policy, e.access m = .required required →
      policy ∈ required.policies → policy.AlwaysStops →
      ∀ call : Call, call.method = m.name → ∀ crossOrigin store, ∃ reply,
        dispatch verifier crossOrigin e call store = (reply, store) ∧
          steps e call store (plan verifier crossOrigin e call) = [] := by
  intro serve served
  have requires : Channel.Session.Requires (Channel.tableOf model) namespaceText (.ofEndpoint e)
      params r := ⟨found, entry⟩
  refine ⟨fun stage handlers input context asked => ⟨?own, ?met⟩, fun meets => ?dispatched,
    fun choose => ?policies, fun m required policy allowed listed stops call called => ?stopped⟩
  case own =>
    have made := (Channel.Session.asksFor_serve found verifier timeout now query
      (i.inputs now)).2 _ asked
    exact made.1
  case met => exact Channel.Session.meets_of_run requires asked rfl
  case dispatched => exact Channel.Session.exists_run_of_meets requires meets
  case policies => exact Channel.Session.serve_withPolicies choose _ _ _ _ _ _ _
  case stopped =>
    intro crossOrigin store
    obtain ⟨reply, planned⟩ := plan_of_stopped allowed listed stops called verifier crossOrigin
    rw [dispatch, planned]
    exact ⟨reply, rfl, rfl⟩

/-- A policy that refuses everybody. -/
def never : Policy := ⟨"never", fun _ ctx => (.stop ⟨403, none⟩, ctx)⟩

/-- Notes whose every method lists the policy. -/
def closedNotes : Json :=
  .object [("collection", .string "notes"),
    ("auth", .object [("requiresAuth", .bool false), ("policies", .array [.string "never"])]),
    ("handlers", .object [("GET", .string "readMany")]),
    ("realTime", .object [("connect", .string "observe")])]

theorem closed_notes_are_observed :
    ∃ model e r params, Model.ofJson (Registry.builtins.addPolicy "never" never) {} closedNotes =
        .ok model ∧
      Channel.route? (Channel.tableOf model) "/" = some (.ofEndpoint e, params) ∧
      e.access .realTime = .required r ∧ never ∈ r.policies ∧
      ∀ verifier timeout query (i : Channel.Inbound),
        (∃ input context, .run .connect e.channel.connect input context ∈
          (Channel.Session.serve verifier (Channel.tableOf model) timeout 0 "/" query
            (i.inputs 0)).2) ∧
        ∀ store, ∃ reply, dispatch verifier true e { method := "GET" } store = (reply, store) := by
  obtain ⟨model, e, r, params, accepted, found, entry, listed, free, get⟩ :
      ∃ model e r params,
        Model.ofJson (Registry.builtins.addPolicy "never" never) {} closedNotes = .ok model ∧
        Channel.route? (Channel.tableOf model) "/" = some (.ofEndpoint e, params) ∧
        e.access .realTime = .required r ∧ never ∈ r.policies ∧ r.auth = false ∧
        e.access HttpMethod.get = .required r :=
    ⟨_, _, _, _, rfl, rfl, rfl, List.mem_cons_of_mem _ List.mem_cons_self, rfl, rfl⟩
  refine ⟨model, e, r, params, accepted, found, entry, listed, fun verifier timeout query i => ?_⟩
  obtain ⟨-, dispatched, -, stopped⟩ :=
    policies_guard_methods_only found entry verifier timeout 0 query i
  refine ⟨dispatched (.inl free), fun store => ?_⟩
  obtain ⟨reply, answered, -⟩ := stopped .get r never get listed (fun _ _ => ⟨_, rfl⟩)
    { method := "GET" } rfl true store
  exact ⟨reply, answered⟩

/-- A handler of a channel runs although a policy that its entry lists refuses everybody. -/
theorem channel_is_open_despite_policy :
    ∃ model e r params input context,
      Model.ofJson (Registry.builtins.addPolicy "never" never) {} closedNotes = .ok model ∧
      Channel.route? (Channel.tableOf model) "/" = some (.ofEndpoint e, params) ∧
      e.access .realTime = .required r ∧ r.policies = [.builtin, never] ∧ never.AlwaysStops ∧
      Channel.Action.run .connect [⟨"observe", Channel.observe⟩] input context ∈
        (Channel.Session.serve (fun _ => .error .notReadable) (Channel.tableOf model) 5000 0 "/"
          .empty []).2 :=
  ⟨_, _, _, _, _, _, rfl, rfl, rfl, rfl, fun _ _ => ⟨_, rfl⟩, List.mem_cons_self⟩

end Serving

end EndpointTree
