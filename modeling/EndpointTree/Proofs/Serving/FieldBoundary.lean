import EndpointTree.Proofs.Redaction
import EndpointTree.Proofs.Serving.Admission

/-!
# Fields at the boundary of a call

What a caller may not write is gone before the first step of a chain sees the input, and
what a caller may not read is gone from the output when the last step is through. Both
go by the column of the method that was called.

* `Serving.plan_withBody`: another body that can be read makes the same plan.
* `Serving.denied_fields_stop_at_the_boundary`: denied fields of the input are of no
  consequence, and the output is cleared of the denied ones and of nothing else.
-/

namespace EndpointTree

namespace Chain

/-- If no step changes who is calling, the chain does not either. -/
theorem auth_run {chain : Chain}
    (alone : ∀ step ∈ chain, ∀ data x, (step.run data x).2.auth = x.auth) (data : Json)
    (x : Exchange) : (run chain data x).2.auth = x.auth := by
  induction chain generalizing data x with
  | nil => rfl
  | cons step rest ih =>
    obtain ⟨first, others⟩ := List.forall_mem_cons.mp alone
    have kept := first data x
    rw [run]
    cases ran : step.run data x with
    | mk outcome left =>
      rw [ran] at kept
      cases outcome with
      | proceed next => exact (ih others next left).trans kept
      | stop | fail | panic => exact kept

end Chain

theorem HttpMethod.name_injective : Function.Injective HttpMethod.name := by
  intro m m' same
  have both := HttpMethod.ofName?_name m
  rw [same, HttpMethod.ofName?_name] at both
  exact (Option.some.inj both).symm

namespace Serving

variable {verifier : Verifier} {crossOrigin : Bool} {e : Endpoint} {call : Call}
  {m : HttpMethod} {auth : AuthContext} {input input' : Json}

/-! ## Plans and inputs -/

/-- The same plan for another input. -/
def Plan.withInput (input : Json) : Plan → Plan
  | .answer reply => .answer reply
  | .run m auth _ => .run m auth input

theorem planGate_withInput :
    planGate verifier e m call input' = (planGate verifier e m call input).withInput input' := by
  rw [planGate, planGate]
  cases Gate.authorize verifier e.access (gateRequest e m call) <;> rfl

/-- Whether and on whose behalf a chain runs does not hang on what the body says. -/
theorem plan_withBody {body : ByteArray} (read : inputOf call.body = .ok input)
    (read' : inputOf body = .ok input') :
    plan verifier crossOrigin e { call with body } =
      (plan verifier crossOrigin e call).withInput input' := by
  have gate (m : HttpMethod) : planGate verifier e m { call with body } input' =
      (planGate verifier e m call input).withInput input' := planGate_withInput
  rw [plan, plan]
  dsimp only
  split
  · rfl
  · next m named =>
    split
    · rfl
    · rw [planMethod, planMethod, read, read']
      dsimp only
      rw [gate]
      split
      · rfl
      · split
        · split <;> rfl
        · rfl

theorem exists_of_plan_eq_run (planned : plan verifier crossOrigin e call = .run m auth input) :
    call.method = m.name ∧ inputOf call.body = .ok input ∧
      Gate.authorize verifier e.access (gateRequest e m call) = .authorized auth := by
  rw [plan] at planned
  split at planned
  · cases planned
  · next m' named =>
    split at planned
    · cases planned
    · obtain ⟨rfl, -, -, read, authorized⟩ := planMethod_eq_run_iff.mp planned
      exact ⟨HttpMethod.ofName?_eq_some_iff.mp named, read, authorized⟩

/-! ## What passes the boundary -/

/-- The names of the fields that a caller is denied for a method. -/
abbrev denied (e : Endpoint) (m : HttpMethod) (auth : AuthContext) : List String :=
  Redaction.deniedFields e.fields m auth

/-- An input that is the same to the first step of a run makes the same run. -/
theorem perform_withInput {p : Plan} {body : ByteArray} {store : Store}
    (alike : ∀ m auth read, p = .run m auth read →
      cleanInput e m auth input' = cleanInput e m auth read) :
    perform e { call with body } store (p.withInput input') = perform e call store p ∧
      steps e { call with body } store (p.withInput input') = steps e call store p := by
  cases p with
  | answer reply => exact ⟨rfl, rfl⟩
  | run m auth read =>
    have same := alike m auth read rfl
    rw [Plan.withInput, perform, perform, runChain, runChain, steps, steps, same]
    exact ⟨rfl, rfl⟩

theorem cleanInput_eq_of_cleared {data : Json} (write : m.isRead = false)
    (cleared : Redaction.Cleared (denied e m auth) input data) :
    cleanInput e m auth input = data := by
  rw [Redaction.cleared_iff.mp cleared, cleanInput, write]
  rfl

/-- Bodies that come to the same input when the denied fields are gone are served alike. -/
theorem dispatch_withBody {body : ByteArray} (named : call.method = m.name)
    (write : m.isRead = false)
    (read : inputOf call.body = .ok input) (read' : inputOf body = .ok input')
    (alike : ∀ auth, Gate.authorize verifier e.access (gateRequest e m call) = .authorized auth →
      ∃ data, Redaction.Cleared (denied e m auth) input data ∧
        Redaction.Cleared (denied e m auth) input' data) (store : Store) :
    dispatch verifier crossOrigin e { call with body } store =
        dispatch verifier crossOrigin e call store ∧
      steps e { call with body } store (plan verifier crossOrigin e { call with body }) =
        steps e call store (plan verifier crossOrigin e call) := by
  rw [dispatch, dispatch, plan_withBody read read']
  refine perform_withInput fun m' auth carried planned => ?_
  obtain ⟨named', read'', authorized⟩ := exists_of_plan_eq_run planned
  obtain rfl : m' = m := HttpMethod.name_injective (named'.symm.trans named)
  obtain rfl : input = carried := Except.ok.inj (read.symm.trans read'')
  obtain ⟨data, cleared, cleared'⟩ := alike auth authorized
  rw [cleanInput_eq_of_cleared write cleared, cleanInput_eq_of_cleared write cleared']

/-- A completed read replies with what is left of its output. -/
theorem dispatch_of_read {store : Store} {output : Json} {x : Exchange}
    (planned : plan verifier crossOrigin e call = .run m auth input) (reads : m.isRead = true)
    (alone : ∀ step ∈ e.chain m, ∀ data x, (step.run data x).2.auth = x.auth)
    (ran : Chain.run (e.chain m) input (exchange e m call auth store) = (.completed output, x)) :
    dispatch verifier crossOrigin e call store =
      (.ofData (x.status.getD 200) (Redaction.strip (denied e m auth) output), x.store) := by
  have kept : x.auth = auth := by
    have whole := Chain.auth_run alone input (exchange e m call auth store)
    rwa [ran] at whole
  have raw : cleanInput e m auth input = input := if_pos reads
  rw [dispatch, planned, perform, runChain, raw, ran, conclude, cleanOutput, if_pos reads, kept,
    Redaction.redact]

/-- Answers that come back as they were sent, but for a field that nobody may write and
one that nobody may read. -/
def echo : Json :=
  .object [("auth", .object [("requiresAuth", .bool false),
      ("fields", .object [("approved", .object [("write", .bool false)]),
        ("secret", .object [("read", .bool false)])])]),
    ("handlers", .object [("GET", .string "echo"), ("POST", .string "echo")])]

/-- A denied field of a write's input is of no consequence: bodies that come to the same
when every denied field is gone give the same steps the same data, and make the same
reply and the same store. A completed read replies with what is left of its output when
every denied field is gone, and nothing else is. What is denied is what the column of
the method called does not admit the caller to. -/
theorem denied_fields_stop_at_the_boundary (verifier : Verifier) (crossOrigin : Bool)
    (e : Endpoint) (call : Call) :
    (∀ m : HttpMethod, call.method = m.name → m.isRead = false →
      ∀ body input input', inputOf call.body = .ok input → inputOf body = .ok input' →
      (∀ auth, Gate.authorize verifier e.access (gateRequest e m call) = .authorized auth →
        ∃ data, Redaction.Cleared (denied e m auth) input data ∧
          Redaction.Cleared (denied e m auth) input' data) →
      ∀ store,
        dispatch verifier crossOrigin e { call with body } store =
            dispatch verifier crossOrigin e call store ∧
          steps e { call with body } store (plan verifier crossOrigin e { call with body }) =
            steps e call store (plan verifier crossOrigin e call)) ∧
    (∀ m auth input, plan verifier crossOrigin e call = .run m auth input → m.isRead = true →
      (∀ step ∈ e.chain m, ∀ data x, (step.run data x).2.auth = x.auth) →
      ∀ store output x,
        Chain.run (e.chain m) input (exchange e m call auth store) = (.completed output, x) →
        ∃ data, Redaction.Cleared (denied e m auth) output data ∧
          dispatch verifier crossOrigin e call store =
            (.ofData (x.status.getD 200) data, x.store)) ∧
    ∀ (m : HttpMethod) auth name, name ∈ denied e m auth ↔
      ∃ table, (name, table) ∈ e.fields ∧
        (table m = .forbidden ∨ ∃ r, table m = .required r ∧ r.admits auth = false) := by
  refine ⟨?_, ?_, fun m auth name => ?_⟩
  · intro m named write body input input' read read' alike store
    exact dispatch_withBody named write read read' alike store
  · intro m auth input planned reads alone store output x ran
    exact ⟨_, Redaction.cleared_iff.mpr rfl, dispatch_of_read planned reads alone ran⟩
  · rw [Redaction.mem_deniedFields_iff]
    simp only [Redaction.fieldAllowed_eq_false_iff]

theorem echo_stops_denied_fields :
    let registry := Registry.empty.addHandler "echo" fun data x => (.proceed data, x)
    let plain := "\x7b\"secret\":\"s\"\x7d".toUTF8
    let forged := "\x7b\"approved\":true,\"secret\":\"s\"\x7d".toUTF8
    ∃ model e, Model.ofJson registry {} echo = .ok model ∧ e ∈ model.values ∧ ∀ store,
      dispatch (fun _ => .ok {}) true e { method := "POST", body := forged } store =
          dispatch (fun _ => .ok {}) true e { method := "POST", body := plain } store ∧
        ∃ data, Redaction.Cleared ["secret"] (.object [("secret", .string "s")]) data ∧
          dispatch (fun _ => .ok {}) true e { method := "GET", body := plain } store =
            (.ofData 200 data, store) := by
  intro registry plain forged
  obtain ⟨model, e, accepted, member, chain, unread, unwritten, planned⟩ :
      ∃ model e, Model.ofJson registry {} echo = .ok model ∧ e ∈ model.values ∧
        e.chain .get = [⟨"echo", fun data x => (.proceed data, x)⟩] ∧
        denied e .get .anonymous = ["secret"] ∧ (∀ auth, denied e .post auth = ["approved"]) ∧
        plan (fun _ => .ok {}) true e { method := "GET", body := plain } =
          .run .get .anonymous (.object [("secret", .string "s")]) := by
    refine ⟨_, _, rfl, List.mem_cons_self, rfl, rfl, fun _ => rfl, ?_⟩
    decide +kernel
  refine ⟨model, e, accepted, member, fun store => ⟨?_, ?_⟩⟩
  · have readPlain : inputOf plain = .ok (.object [("secret", .string "s")]) := by decide +kernel
    have readForged : inputOf forged =
        .ok (.object [("approved", .bool true), ("secret", .string "s")]) := by decide +kernel
    refine ((denied_fields_stop_at_the_boundary _ true e { method := "POST", body := plain }).1
      .post rfl rfl forged _ _ readPlain readForged (fun auth _ => ?_) store).1
    rw [unwritten]
    exact ⟨_, Redaction.cleared_iff.mpr rfl, Redaction.cleared_iff.mpr rfl⟩
  · have ran : Chain.run (e.chain .get) (.object [("secret", .string "s")])
          (exchange e .get { method := "GET", body := plain } .anonymous store) =
        (.completed (.object [("secret", .string "s")]),
          exchange e .get { method := "GET", body := plain } .anonymous store) := by
      rw [chain]
      rfl
    rw [← unread]
    refine (denied_fields_stop_at_the_boundary _ true e { method := "GET", body := plain }).2.1
      .get .anonymous _ planned rfl ?_ store _ _ ran
    rw [chain]
    intro step member data x
    obtain rfl := List.mem_singleton.mp member
    rfl

end Serving

end EndpointTree
