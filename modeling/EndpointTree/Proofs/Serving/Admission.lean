import EndpointTree.Proofs.Endpoint.Rules
import EndpointTree.Proofs.Gate
import EndpointTree.Serving.Dispatch
import Mathlib.Data.List.Chain

/-!
# Which calls are admitted

A call of an endpoint either runs the chain of its method, once, or is answered
without anything being run. `Serving.Admitted` says what it takes to be run, and
nothing that a handler would do is part of it.

* `Chain.trace` lists the steps that a chain runs, and `Chain.ran_trace` ties it to the run.
* `Serving.plan_eq_run_iff`: a call is planned to be run exactly if it is admitted.
-/

namespace EndpointTree

namespace Chain

/-- The steps that a chain runs, each with the data and the exchange that it is given. -/
def trace : Chain → Json → Exchange → List (NamedHandler × Json × Exchange)
  | [], _, _ => []
  | step :: rest, data, x =>
    (step, data, x) :: match step.run data x with
      | (.proceed next, left) => trace rest next left
      | (.stop _, _) | (.fail _, _) | (.panic, _) => []

/-- How a chain ends whose last step was this one. -/
def endOf (ran : NamedHandler × Json × Exchange) : Outcome × Exchange :=
  match ran.1.run ran.2.1 ran.2.2 with
  | (.proceed next, left) => (.completed next, left)
  | (.stop stop, left) => (.stopped stop, left)
  | (.fail _, left) => (.stopped .internal, left)
  | (.panic, left) => (.stopped .internal, left)

/-- The steps that ran are the first ones of the chain. -/
theorem trace_isPrefix (chain : Chain) (data : Json) (x : Exchange) :
    (trace chain data x).map (·.1) <+: chain := by
  induction chain generalizing data x with
  | nil => exact List.nil_prefix
  | cons step rest ih =>
    rw [trace, List.map_cons, List.prefix_cons_inj]
    split
    · exact ih _ _
    · exact List.nil_prefix
    · exact List.nil_prefix
    · exact List.nil_prefix

/-- What a chain comes to is what the last of the steps that ran came to. -/
theorem run_eq_endOf (chain : Chain) (data : Json) (x : Exchange) :
    run chain data x = ((trace chain data x).getLast?.map endOf).getD (.completed data, x) := by
  induction chain generalizing data x with
  | nil => rfl
  | cons step rest ih =>
    rw [run, trace, List.getLast?_cons]
    cases ran : step.run data x with
    | mk outcome left =>
      cases outcome with
      | proceed next =>
        simp only [ih]
        cases (trace rest next left).getLast? with
        | none => simp only [Option.map_none, Option.getD_none, Option.map_some, Option.getD_some,
            endOf, ran]
        | some last => rfl
      | stop stop => simp only [List.getLast?_nil, Option.getD_none, Option.map_some,
          Option.getD_some, endOf, ran]
      | fail fault => simp only [List.getLast?_nil, Option.getD_none, Option.map_some,
          Option.getD_some, endOf, ran]
      | panic => simp only [List.getLast?_nil, Option.getD_none, Option.map_some,
          Option.getD_some, endOf, ran]

/-- A chain that is not empty runs its first step at least. -/
theorem trace_ne_nil {chain : Chain} (served : chain ≠ []) (data : Json) (x : Exchange) :
    trace chain data x ≠ [] := by
  cases chain with
  | nil => exact absurd rfl served
  | cons step rest => exact List.cons_ne_nil _ _

/-- A step hands on what another one is given. -/
def HandsOn (ran next : NamedHandler × Json × Exchange) : Prop :=
  ran.1.run ran.2.1 ran.2.2 = (.proceed next.2.1, next.2.2)

/-- Each step runs on what the one before it handed on. -/
theorem trace_isChain (chain : Chain) (data : Json) (x : Exchange) :
    (trace chain data x).IsChain HandsOn := by
  induction chain generalizing data x with
  | nil => exact .nil
  | cons step rest ih =>
    rw [trace]
    split
    · next next left ran =>
      refine List.isChain_cons.mpr ⟨fun second found => ?_, ih next left⟩
      cases rest with
      | nil => cases found
      | cons step' rest =>
        cases found
        exact ran
    · exact .singleton _
    · exact .singleton _
    · exact .singleton _

/-- A chain was run once: its first steps ran, in order, the first one on what the chain was
given and every other one on what the step before it handed on; and the chain came to what the
last of them came to. -/
structure Ran (chain : Chain) (data : Json) (x : Exchange)
    (steps : List (NamedHandler × Json × Exchange)) (result : Outcome × Exchange) : Prop where
  inOrder : steps.map (·.1) <+: chain
  given : steps.head?.map (·.2) = some (data, x)
  handedOn : steps.IsChain HandsOn
  result : steps.getLast?.map endOf = some result

/-- The trace of a chain is how its run went. -/
theorem ran_trace {chain : Chain} (served : chain ≠ []) (data : Json) (x : Exchange) :
    Ran chain data x (trace chain data x) (run chain data x) where
  inOrder := trace_isPrefix chain data x
  given := by
    cases chain with
    | nil => exact absurd rfl served
    | cons step rest => rfl
  handedOn := trace_isChain chain data x
  result := by
    have last := List.getLast?_eq_some_getLast (trace_ne_nil served data x)
    rw [run_eq_endOf, last]
    rfl

end Chain

namespace Serving

variable {verifier : Verifier} {crossOrigin : Bool} {e : Endpoint} {call : Call}
  {m : HttpMethod} {auth : AuthContext} {input : Json}

/-- What it takes for the chain of a method to be run on an input, on behalf of a caller. -/
structure Admitted (verifier : Verifier) (crossOrigin : Bool) (e : Endpoint) (call : Call)
    (m : HttpMethod) (auth : AuthContext) (input : Json) : Prop where
  named : call.method = m.name
  /-- The call is not a preflight that is answered as such. -/
  notPreflight : ¬ (m = .options ∧ crossOrigin = true ∧
    Http.CrossOrigin.isPreflight call.headers = true)
  served : e.chain m ≠ []
  body : (call.body.isEmpty = true ∧ input = .null) ∨
    (call.body.isEmpty = false ∧ Json.parse call.body = .ok input)
  /-- The method is not forbidden, the request's own header meets the requirement, and
  the declared policies go on from there, in order. -/
  gate : ∃ r declared, e.access m = .required r ∧ r.policies = .builtin :: declared ∧
    (r.auth = true → Policy.Presents verifier r.roles call.headers) ∧
    Gate.Passes verifier declared
      (Gate.identifiedContext verifier r (gateRequest e m call)) auth

/-- An empty body is no input, and any other has to be a document. -/
theorem inputOf_eq_ok_iff {body : ByteArray} :
    inputOf body = .ok input ↔ (body.isEmpty = true ∧ input = .null) ∨
      (body.isEmpty = false ∧ Json.parse body = .ok input) := by
  rw [inputOf]
  cases body.isEmpty with
  | true => simp [eq_comm]
  | false => simp

/-- Behind the other checks, a call is run just where the gate lets it in. -/
theorem planGate_eq_run_iff {m' : HttpMethod} {input' : Json} :
    planGate verifier e m' call input' = .run m auth input ↔
      m' = m ∧ input' = input ∧
        Gate.authorize verifier e.access (gateRequest e m' call) = .authorized auth := by
  rw [planGate]
  cases Gate.authorize verifier e.access (gateRequest e m' call) with
  | authorized auth' => simp only [Plan.run.injEq, Gate.Decision.authorized.injEq]; tauto
  | notAllowed allow => simp
  | rejected stop => simp

theorem isForbidden_iff {entry : AuthEntry} : entry.isForbidden = true ↔ entry = .forbidden := by
  cases entry <;> simp [AuthEntry.isForbidden]

/-- A call is run just where its method is served and allowed, its body is read, and the gate lets
it in. -/
theorem planMethod_eq_run_iff {m' : HttpMethod} :
    planMethod verifier e m' call = .run m auth input ↔
      m' = m ∧ e.access m ≠ .forbidden ∧ e.chain m ≠ [] ∧ inputOf call.body = .ok input ∧
        Gate.authorize verifier e.access (gateRequest e m call) = .authorized auth := by
  rw [planMethod]
  split
  · next forbidden =>
    constructor
    · intro planned
      cases planned
    · intro holds
      rcases holds with ⟨rfl, allowed, -⟩
      exact absurd (isForbidden_iff.mp forbidden) allowed
  · next allowed =>
    split
    · next empty =>
      constructor
      · intro planned
        split at planned <;> cases planned
      · intro holds
        rcases holds with ⟨rfl, -, served, -⟩
        exact absurd (List.isEmpty_iff.mp empty) served
    · next served =>
      cases bodyEq : inputOf call.body with
      | error fault => simp
      | ok input' =>
        simp only [planGate_eq_run_iff, Except.ok.injEq]
        constructor
        · intro holds
          rcases holds with ⟨rfl, rfl, authorized⟩
          refine ⟨rfl, fun forbidden => ?_, fun empty => ?_, rfl, authorized⟩
          · exact allowed (isForbidden_iff.mpr forbidden)
          · exact served (List.isEmpty_iff.mpr empty)
        · intro holds
          rcases holds with ⟨rfl, -, -, rfl, authorized⟩
          exact ⟨rfl, rfl, authorized⟩

/-- Where the built-in policy heads every list, what the gate asks for is what it
takes to be admitted. -/
theorem authorize_iff_of_guarded (guarded : Endpoint.Guarded e.access) :
    (e.access m ≠ .forbidden ∧
        Gate.authorize verifier e.access (gateRequest e m call) = .authorized auth) ↔
      ∃ r declared, e.access m = .required r ∧ r.policies = .builtin :: declared ∧
        (r.auth = true → Policy.Presents verifier r.roles call.headers) ∧
        Gate.Passes verifier declared
          (Gate.identifiedContext verifier r (gateRequest e m call)) auth := by
  constructor
  · intro holds
    rcases holds with ⟨allowed, authorized⟩
    cases entry : e.access m with
    | forbidden => exact absurd entry allowed
    | required r =>
      obtain ⟨declared, heads⟩ := guarded m r entry
      obtain ⟨presents, passes⟩ := (Gate.authorize_eq_authorized_iff entry heads).mp authorized
      exact ⟨r, declared, rfl, heads, presents, passes⟩
  · intro holds
    rcases holds with ⟨r, declared, entry, heads, presents, passes⟩
    refine ⟨fun forbidden => ?_, ?_⟩
    · rw [entry] at forbidden
      cases forbidden
    · exact (Gate.authorize_eq_authorized_iff entry heads).mpr ⟨presents, passes⟩

/-- A call is planned to be run exactly if it is admitted. -/
theorem plan_eq_run_iff (guarded : Endpoint.Guarded e.access) :
    plan verifier crossOrigin e call = .run m auth input ↔
      Admitted verifier crossOrigin e call m auth input := by
  have gate_iff : (e.access m ≠ .forbidden ∧
      Gate.authorize verifier e.access (gateRequest e m call) = .authorized auth) ↔ _ :=
    authorize_iff_of_guarded guarded
  rw [plan]
  constructor
  · intro planned
    split at planned
    · cases planned
    · next m' nameEq =>
      split at planned
      · cases planned
      · next notPreflight =>
        obtain ⟨rfl, allowed, served, bodyEq, authorized⟩ := planMethod_eq_run_iff.mp planned
        refine ⟨HttpMethod.ofName?_eq_some_iff.mp nameEq, ?_, served, inputOf_eq_ok_iff.mp bodyEq,
          gate_iff.mp ⟨allowed, authorized⟩⟩
        intro holds
        rcases holds with ⟨rfl, answered, preflight⟩
        rw [answered, preflight] at notPreflight
        exact notPreflight rfl
  · intro holds
    rcases holds with ⟨named, notPreflight, served, body, gate⟩
    obtain ⟨allowed, authorized⟩ := gate_iff.mpr gate
    rw [HttpMethod.ofName?_eq_some_iff.mpr named]
    dsimp only
    rw [if_neg, planMethod_eq_run_iff]
    · exact ⟨rfl, allowed, served, inputOf_eq_ok_iff.mpr body, authorized⟩
    · simpa only [Bool.and_eq_true, decide_eq_true_eq, and_assoc] using notPreflight

/-- Two endpoints that differ at most in what their handlers do: each method has
something to run at both or at neither. -/
structure SameButHandlers (e e' : Endpoint) : Prop where
  path : e'.path = e.path
  access : e'.access = e.access
  cors : e'.cors = e.cors
  served : ∀ m, (e'.chain m).isEmpty = (e.chain m).isEmpty

/-- The checks do not look at what a handler would do. -/
theorem plan_eq_of_sameButHandlers {e' : Endpoint} (same : SameButHandlers e e') :
    plan verifier crossOrigin e' call = plan verifier crossOrigin e call := by
  have gate (m : HttpMethod) (input : Json) :
      planGate verifier e' m call input = planGate verifier e m call input := by
    simp only [planGate, gateRequest, same.access, same.path]
  have method (m : HttpMethod) : planMethod verifier e' m call = planMethod verifier e m call := by
    simp only [planMethod, servable, same.access, same.served, gate]
  simp only [plan, same.access, same.cors, method]

/-- The steps that are run for a plan, each with what it is given. -/
def steps (e : Endpoint) (call : Call) (store : Store) :
    Plan → List (NamedHandler × Json × Exchange)
  | .answer _ => []
  | .run m auth input =>
    Chain.trace (e.chain m) (cleanInput e m auth input) (exchange e m call auth store)

/-- At every endpoint of a model, an admitted call runs the chain of its method once, on the
caller's context that the last policy left, and that run makes the reply and the store: the steps
that run are the first ones of the chain, in order, each on what the one before it handed on, and
the last of them decides. Any other call runs no step and leaves the store alone, whatever
handlers stand in the chains: its reply does not depend on them. -/
theorem chain_runs_exactly_for_admitted_calls {registry : Registry} {defaults : CorsOptions}
    {raw : Json} {model : Model} {e : Endpoint}
    (accepted : Model.ofJson registry defaults raw = .ok model) (member : e ∈ model.values)
    (verifier : Verifier) (crossOrigin : Bool) (call : Call) :
    (∀ m auth input, Admitted verifier crossOrigin e call m auth input → ∀ store,
      let data := cleanInput e m auth input
      let x := exchange e m call auth store
      let result := Chain.run (e.chain m) data x
      dispatch verifier crossOrigin e call store = (conclude e m result, result.2.store) ∧
        steps e call store (plan verifier crossOrigin e call) = Chain.trace (e.chain m) data x ∧
        Chain.trace (e.chain m) data x ≠ [] ∧
        Chain.Ran (e.chain m) data x (Chain.trace (e.chain m) data x) result) ∧
    ((¬ ∃ m auth input, Admitted verifier crossOrigin e call m auth input) →
      ∃ reply, ∀ e', SameButHandlers e e' → ∀ store,
        dispatch verifier crossOrigin e' call store = (reply, store) ∧
          steps e' call store (plan verifier crossOrigin e' call) = []) := by
  have guarded : Endpoint.Guarded e.access := by
    rw [Model.ofJson] at accepted
    split at accepted
    · cases accepted
    · exact Endpoint.compile_guarded accepted e member
  constructor
  · intro m auth input admitted store data x result
    have planned := (plan_eq_run_iff guarded).mpr admitted
    rw [dispatch, planned]
    exact ⟨rfl, rfl, Chain.trace_ne_nil admitted.served data x,
      Chain.ran_trace admitted.served data x⟩
  · intro notAdmitted
    cases planned : plan verifier crossOrigin e call with
    | run m auth input =>
      exact absurd ⟨m, auth, input, (plan_eq_run_iff guarded).mp planned⟩ notAdmitted
    | answer reply =>
      refine ⟨reply, fun e' same store => ?_⟩
      rw [dispatch, plan_eq_of_sameButHandlers same, planned]
      exact ⟨rfl, rfl⟩

theorem admitted_call_runs_its_chain :
    ∃ model e, Model.ofJson (Registry.empty.addHandler "list" fun data x => (.proceed data, x)) {}
        (.object [("handlers", .object [("GET", .string "list")])]) = .ok model ∧
      e ∈ model.values ∧
      ∀ store, dispatch (fun _ => .ok {}) true e
          { method := "GET", headers := [("authorization", "Bearer key".toUTF8.toList)] } store =
        (.ofData 200 .null, store) := by
  refine ⟨_, _, rfl, List.mem_cons_self, fun store => ?_⟩
  refine ((@chain_runs_exactly_for_admitted_calls
    (Registry.empty.addHandler "list" fun data x => (.proceed data, x)) {}
    (.object [("handlers", .object [("GET", .string "list")])]) _ _ rfl List.mem_cons_self
    (fun _ => .ok {}) true _).1 .get (.authenticatedBy "key" {}) .null ?_ store).1
  have carried : Token.bearer [("authorization", "Bearer key".toUTF8.toList)] = .ok "key" := by
    decide +kernel
  have caller : Policy.identify (fun _ => .ok {})
      [("authorization", "Bearer key".toUTF8.toList)] = .authenticatedBy "key" {} := by
    rw [Policy.identify, carried]
  refine ⟨rfl, by decide, List.cons_ne_nil _ _, .inl ⟨rfl, rfl⟩, _, [], rfl, rfl,
    fun _ => ⟨"key", {}, Token.bearer_eq_ok_iff.mp carried, rfl, rfl⟩, ?_⟩
  rw [← caller]
  exact .done _

end Serving

end EndpointTree
