import EndpointTree.Handling.Crud
import EndpointTree.Proofs.Http.Allow
import EndpointTree.Proofs.Serving.FieldBoundary

/-!
# Refusing a method

A call is refused for its method at three places: the name is no served method, the method is
forbidden, or there is nothing to run for it. They do not list the same methods, and yet each list
leaves out the method of the call and whatever is forbidden, and has every method that could be
run. What else ends with the status of a refusal was chosen by a policy or a handler, and a client
can tell: the field that lists methods is missing.

* `Serving.Refusal` has the three places, and `Serving.Refusal.coherent` is what they share.
* `Serving.planned` says what can be planned for a call.
* `Serving.refusals_are_coherent` puts it together for the reply of a call.
-/

namespace EndpointTree

namespace Gate

/-- The policies go on up to one that stops, with this answer. -/
inductive Stops (verifier : Verifier) : List Policy → PolicyContext → Stop → Prop
  | here {policy : Policy} {rest : List Policy} {ctx left : PolicyContext} {stop : Stop} :
    policy.check verifier ctx = (.stop stop, left) → Stops verifier (policy :: rest) ctx stop
  | later {policy : Policy} {rest : List Policy} {ctx left : PolicyContext} {stop : Stop} :
    policy.check verifier ctx = (.proceed (), left) → Stops verifier rest left stop →
    Stops verifier (policy :: rest) ctx stop

/-- What ends a run of policies early, a policy chose, unless one failed or broke down. -/
theorem stops_of_runPolicies {verifier : Verifier} {policies : List Policy} {ctx : PolicyContext}
    {stop : Stop} (ended : runPolicies verifier policies ctx = .error stop) :
    stop = .internal ∨ Stops verifier policies ctx stop := by
  induction policies generalizing ctx with
  | nil => cases ended
  | cons policy rest ih =>
    rw [runPolicies] at ended
    split at ended
    · next left checked => exact (ih ended).imp_right (.later checked)
    · next checked =>
      cases ended
      exact .inr (.here checked)
    · cases ended
      exact .inl rfl
    · cases ended
      exact .inl rfl

theorem runPolicies_of_rejected {verifier : Verifier} {table : AuthTable} {request : Request}
    {r : Requirement} {stop : Stop} (entry : table request.method = .required r)
    (rejected : authorize verifier table request = .rejected stop) :
    runPolicies verifier r.policies (startContext r request) = .error stop := by
  rw [authorize, entry] at rejected
  dsimp only at rejected
  split at rejected
  · cases rejected
  · next ended =>
    cases rejected
    exact ended

end Gate

namespace Serving

variable {verifier : Verifier} {crossOrigin : Bool} {e : Endpoint} {call : Call} {store : Store}
  {allow : List HttpMethod}

/-! ## The three places -/

/-- The call asks for options as a preflight, and preflights are answered. -/
def IsPreflight (crossOrigin : Bool) (call : Call) (m : HttpMethod) : Prop :=
  m = .options ∧ crossOrigin = true ∧ Http.CrossOrigin.isPreflight call.headers = true

/-- A call is refused for its method, and these methods are listed. -/
inductive Refusal (crossOrigin : Bool) (e : Endpoint) (call : Call) : List HttpMethod → Prop
  /-- The name is that of no served method. -/
  | unknown : (∀ m : HttpMethod, call.method ≠ m.name) → Refusal crossOrigin e call e.access.allowed
  /-- The method is forbidden. -/
  | forbidden {m : HttpMethod} : call.method = m.name → ¬ IsPreflight crossOrigin call m →
    e.access m = .forbidden → Refusal crossOrigin e call e.access.allowed
  /-- The method has nothing to run; options would be answered. -/
  | unserved {m : HttpMethod} : call.method = m.name → m ≠ .options → e.access m ≠ .forbidden →
    e.chain m = [] → Refusal crossOrigin e call (servable e)

/-- Names that are listed in place of the method of a call are those of others that can be called:
none is forbidden, none that can be run is missing, and they stand in their order, each once. -/
structure Coherent (e : Endpoint) (call : Call) (names : List String) : Prop where
  apart : call.method ∉ names
  permitted : ∀ m : HttpMethod, e.access m = .forbidden → m.name ∉ names
  complete : ∀ m : HttpMethod, e.access m ≠ .forbidden → e.chain m ≠ [] → m.name ∈ names
  ordered : names.Sublist ["GET", "HEAD", "OPTIONS", "POST", "PUT", "PATCH", "DELETE"]
  once : names.Nodup

theorem name_mem_map_iff {m : HttpMethod} : m.name ∈ allow.map (·.name) ↔ m ∈ allow :=
  List.mem_map_of_injective HttpMethod.name_injective

theorem isForbidden_eq_false_iff {entry : AuthEntry} :
    entry.isForbidden = false ↔ entry ≠ .forbidden := by
  rw [Ne, ← isForbidden_iff, Bool.not_eq_true]

theorem mem_allowed_iff {table : AuthTable} {m : HttpMethod} :
    m ∈ table.allowed ↔ table m ≠ .forbidden := by
  rw [AuthTable.allowed, List.mem_filter, Bool.not_eq_true', isForbidden_eq_false_iff]
  exact and_iff_right (HttpMethod.mem_all m)

theorem mem_servable_iff {m : HttpMethod} :
    m ∈ servable e ↔ e.access m ≠ .forbidden ∧ (m = .options ∨ e.chain m ≠ []) := by
  rw [servable, List.mem_filter, mem_allowed_iff]
  simp

/-- Names of methods that are taken from all methods in their order stand in their order. -/
theorem ordered_of_sublist (taken : allow.Sublist HttpMethod.all) :
    (allow.map (·.name)).Sublist ["GET", "HEAD", "OPTIONS", "POST", "PUT", "PATCH", "DELETE"] :=
  taken.map (·.name)

theorem allowed_sublist (table : AuthTable) : table.allowed.Sublist HttpMethod.all :=
  List.filter_sublist

/-- A list is coherent if it is taken from all methods in their order, has none that is forbidden
or called, and has all that can be run. -/
theorem coherent_of_mem (taken : allow.Sublist HttpMethod.all)
    (apart : ∀ m ∈ allow, call.method ≠ m.name) (permitted : ∀ m ∈ allow, e.access m ≠ .forbidden)
    (complete : ∀ m : HttpMethod, e.access m ≠ .forbidden → e.chain m ≠ [] → m ∈ allow) :
    Coherent e call (allow.map (·.name)) where
  apart := by
    intro member
    obtain ⟨m, member, same⟩ := List.mem_map.mp member
    exact apart m member same.symm
  permitted m forbidden member := permitted m (name_mem_map_iff.mp member) forbidden
  complete m free served := name_mem_map_iff.mpr (complete m free served)
  ordered := ordered_of_sublist taken
  once := (ordered_of_sublist taken).nodup (by decide)

/-- At each of the three places the list is coherent. -/
theorem Refusal.coherent (refusal : Refusal crossOrigin e call allow) :
    Coherent e call (allow.map (·.name)) := by
  have complete (m : HttpMethod) (free : e.access m ≠ .forbidden) (_ : e.chain m ≠ []) :
      m ∈ e.access.allowed := mem_allowed_iff.mpr free
  cases refusal with
  | unknown unnamed =>
    exact coherent_of_mem (allowed_sublist e.access) (fun m _ => unnamed m)
      (fun m => mem_allowed_iff.mp) complete
  | @forbidden m named _ forbidden =>
    refine coherent_of_mem (allowed_sublist e.access) (fun m' member same => ?_)
      (fun m => mem_allowed_iff.mp) complete
    rw [named] at same
    obtain rfl := HttpMethod.name_injective same
    exact mem_allowed_iff.mp member forbidden
  | @unserved m named notOptions free empty =>
    refine coherent_of_mem (List.filter_sublist.trans (allowed_sublist e.access))
      (fun m' member same => ?_) (fun m member => (mem_servable_iff.mp member).1)
      (fun m free served => mem_servable_iff.mpr ⟨free, .inr served⟩)
    rw [named] at same
    obtain rfl := HttpMethod.name_injective same
    rcases (mem_servable_iff.mp member).2 with options | served
    · exact notOptions options
    · exact served empty

/-! ## What is planned for a call -/

theorem isPreflight_iff {m : HttpMethod} :
    (m = .options && crossOrigin && Http.CrossOrigin.isPreflight call.headers) = true ↔
      IsPreflight crossOrigin call m := by
  rw [Bool.and_eq_true, Bool.and_eq_true, decide_eq_true_eq, and_assoc, IsPreflight]

theorem ofName?_eq_none_iff {key : String} :
    HttpMethod.ofName? key = none ↔ ∀ m : HttpMethod, key ≠ m.name := by
  simp only [Option.eq_none_iff_forall_ne_some, ne_eq, HttpMethod.ofName?_eq_some_iff]

/-- What can be planned for a call: it is refused for its method, or answered in one of four other
ways, or run. -/
inductive Planned (verifier : Verifier) (crossOrigin : Bool) (e : Endpoint) (call : Call) :
    Plan → Prop
  | refused {allow : List HttpMethod} : Refusal crossOrigin e call allow →
    Planned verifier crossOrigin e call (.answer (.methodNotAllowed allow))
  | preflight :
    Planned verifier crossOrigin e call (.answer (Http.CrossOrigin.preflight e.cors call.headers))
  | noContent : Planned verifier crossOrigin e call (.answer (.bare Http.Reply.noContent))
  | invalid (fault : Json.Fault) :
    Planned verifier crossOrigin e call (.answer (.ofError (invalidBody fault)))
  | rejected {m : HttpMethod} {r : Requirement} {stop : Stop} : call.method = m.name →
    e.access m = .required r →
    Gate.runPolicies verifier r.policies (Gate.startContext r (gateRequest e m call)) =
      .error stop →
    Planned verifier crossOrigin e call (.answer (.ofStop stop))
  | run (m : HttpMethod) (auth : AuthContext) (input : Json) :
    Planned verifier crossOrigin e call (.run m auth input)

/-- The gate has no say about a method that is not forbidden. -/
theorem planned_planGate {m : HttpMethod} (named : call.method = m.name)
    (free : e.access m ≠ .forbidden) (input : Json) :
    Planned verifier crossOrigin e call (planGate verifier e m call input) := by
  cases entry : e.access m with
  | forbidden => exact absurd entry free
  | required r =>
    rw [planGate]
    split
    · exact .run m _ input
    · next decided =>
      rw [Gate.authorize] at decided
      simp only [gateRequest, entry] at decided
      split at decided <;> cases decided
    · next rejected => exact .rejected named entry (Gate.runPolicies_of_rejected entry rejected)

theorem planned (verifier : Verifier) (crossOrigin : Bool) (e : Endpoint) (call : Call) :
    Planned verifier crossOrigin e call (plan verifier crossOrigin e call) := by
  rw [plan]
  split
  · next unnamed => exact .refused (.unknown (ofName?_eq_none_iff.mp unnamed))
  · next m nameEq =>
    have named := HttpMethod.ofName?_eq_some_iff.mp nameEq
    split
    · exact .preflight
    · next notPreflight =>
      have notPreflight : ¬ IsPreflight crossOrigin call m := isPreflight_iff.not.mp notPreflight
      rw [planMethod]
      split
      · next forbidden =>
        exact .refused (.forbidden named notPreflight (isForbidden_iff.mp forbidden))
      · next free =>
        have free : e.access m ≠ .forbidden := fun forbidden => free (isForbidden_iff.mpr forbidden)
        split
        · next empty =>
          split
          · exact .noContent
          · next notOptions =>
            exact .refused (.unserved named notOptions free (List.isEmpty_iff.mp empty))
        · split
          · next fault _ => exact .invalid fault
          · next input _ => exact planned_planGate named free input

/-- A call that is to be refused is refused. -/
theorem Refusal.plan_eq (refusal : Refusal crossOrigin e call allow) :
    plan verifier crossOrigin e call = .answer (.methodNotAllowed allow) := by
  rw [plan]
  cases refusal with
  | unknown unnamed => rw [ofName?_eq_none_iff.mpr unnamed]
  | @forbidden m named notPreflight forbidden =>
    rw [HttpMethod.ofName?_eq_some_iff.mpr named]
    dsimp only
    rw [if_neg (isPreflight_iff.not.mpr notPreflight), planMethod,
      if_pos (isForbidden_iff.mpr forbidden)]
  | @unserved m named notOptions free empty =>
    rw [HttpMethod.ofName?_eq_some_iff.mpr named]
    dsimp only
    rw [if_neg (isPreflight_iff.not.mpr fun asked => notOptions asked.1), planMethod,
      if_neg (isForbidden_iff.not.mpr free), if_pos (List.isEmpty_iff.mpr empty), if_neg notOptions]

/-! ## Statuses that are chosen -/

/-- The status of a reply is that of a policy which stopped the call, or of a handler which stopped
its chain or set the status. -/
inductive Chosen (verifier : Verifier) (crossOrigin : Bool) (e : Endpoint) (call : Call)
    (store : Store) (status : Nat) : Prop
  | policy {m : HttpMethod} {r : Requirement} {stop : Stop} : call.method = m.name →
    e.access m = .required r →
    Gate.Stops verifier r.policies (Gate.startContext r (gateRequest e m call)) stop →
    stop.status = status → Chosen verifier crossOrigin e call store status
  | stop {ran : NamedHandler × Json × Exchange} {stop : Stop} {left : Exchange} :
    ran ∈ steps e call store (plan verifier crossOrigin e call) →
    ran.1.run ran.2.1 ran.2.2 = (.stop stop, left) → stop.status = status →
    Chosen verifier crossOrigin e call store status
  | set {ran : NamedHandler × Json × Exchange} :
    ran ∈ steps e call store (plan verifier crossOrigin e call) →
    (ran.1.run ran.2.1 ran.2.2).2.status = some status →
    Chosen verifier crossOrigin e call store status

theorem status_ofStop (stop : Stop) : (Http.Reply.ofStop stop).status = stop.status := by
  obtain ⟨status, payload⟩ := stop
  cases payload <;> rfl

theorem status_ofData (status : Nat) (data : Json) :
    (Http.Reply.ofData status data).status = status := by
  rw [Http.Reply.ofData]
  split
  · next noContent => exact noContent.symm
  · rfl

/-- A run that ends neither well without a status of its own nor with a breakdown has a step that
stopped with the status or set it. -/
theorem exists_of_status_conclude {m : HttpMethod} {chain : Chain} {data : Json} {x : Exchange}
    (unset : x.status = none)
    (notDone : (conclude e m (Chain.run chain data x)).status ≠ 200)
    (notBroken : (conclude e m (Chain.run chain data x)).status ≠ 500) :
    ∃ ran ∈ Chain.trace chain data x,
      (∃ stop left, ran.1.run ran.2.1 ran.2.2 = (.stop stop, left) ∧
        stop.status = (conclude e m (Chain.run chain data x)).status) ∨
      (ran.1.run ran.2.1 ran.2.2).2.status =
        some (conclude e m (Chain.run chain data x)).status := by
  rw [Chain.run_eq_endOf] at notDone notBroken ⊢
  cases last : (Chain.trace chain data x).getLast? with
  | none =>
    rw [last, Option.map_none, Option.getD_none, conclude, status_ofData, unset] at notDone
    exact absurd rfl notDone
  | some ran =>
    refine ⟨ran, List.mem_of_getLast? last, ?_⟩
    rw [last, Option.map_some, Option.getD_some, Chain.endOf] at notDone notBroken
    rw [Option.map_some, Option.getD_some, Chain.endOf]
    split at notDone
    · next next left same =>
      rw [same]
      rw [conclude, status_ofData] at notDone ⊢
      cases status : left.status with
      | none =>
        rw [status] at notDone
        exact absurd rfl notDone
      | some status => exact .inr rfl
    · next stop left same =>
      rw [same]
      exact .inl ⟨stop, left, rfl, (status_ofStop stop).symm⟩
    · next fault left same =>
      rw [same] at notBroken
      exact absurd rfl notBroken
    · next left same =>
      rw [same] at notBroken
      exact absurd rfl notBroken

/-! ## Replies -/

/-- A reply with the status of a refusal that is none was chosen. -/
theorem chosen_of_status (refuses : (dispatch verifier crossOrigin e call store).1.status = 405)
    (missing : (dispatch verifier crossOrigin e call store).1.allow? = none) :
    Chosen verifier crossOrigin e call store 405 := by
  have possible := planned verifier crossOrigin e call
  have ran := @Chosen.stop verifier crossOrigin e call store 405
  have set := @Chosen.set verifier crossOrigin e call store 405
  rw [dispatch] at refuses missing
  generalize plan verifier crossOrigin e call = p at possible refuses missing ran set
  cases possible with
  | refused refusal =>
    rw [perform, Http.Reply.allow?_methodNotAllowed] at missing
    cases missing
  | preflight | noContent | invalid => cases refuses
  | rejected named entry ended =>
    rw [perform, status_ofStop] at refuses
    rcases Gate.stops_of_runPolicies ended with rfl | stops
    · cases refuses
    · exact .policy named entry stops refuses
  | run m auth input =>
    rw [perform, runChain] at refuses
    dsimp only at refuses
    have notDone : (405 : Nat) ≠ 200 := by decide
    have notBroken : (405 : Nat) ≠ 500 := by decide
    rw [← refuses] at notDone notBroken
    obtain ⟨step, member, stopped | status⟩ := exists_of_status_conclude rfl notDone notBroken
    · obtain ⟨stop, left, ends, same⟩ := stopped
      exact ran member ends (same.trans refuses)
    · exact set member (status.trans (congrArg some refuses))

/-- The field that lists methods is in refusals only. -/
theorem refusal_of_allow? {names : List String}
    (listed : (dispatch verifier crossOrigin e call store).1.allow? = some names) :
    ∃ allow, Refusal crossOrigin e call allow ∧ names = allow.map (·.name) := by
  have possible := planned verifier crossOrigin e call
  rw [dispatch] at listed
  generalize plan verifier crossOrigin e call = p at possible listed
  cases possible with
  | refused refusal =>
    rw [perform, Http.Reply.allow?_methodNotAllowed] at listed
    exact ⟨_, refusal, (Option.some.inj listed).symm⟩
  | preflight =>
    rw [perform, Http.Reply.allow?_preflight] at listed
    cases listed
  | noContent =>
    rw [perform, Http.Reply.allow?_eq_none rfl] at listed
    cases listed
  | invalid fault =>
    rw [perform, Http.Reply.allow?_ofError] at listed
    cases listed
  | @rejected _ _ stop _ _ _ =>
    rw [perform, Http.Reply.allow?_ofStop] at listed
    cases listed
  | run m auth input =>
    rw [perform, runChain, conclude.eq_def] at listed
    dsimp only at listed
    split at listed
    · rw [Http.Reply.allow?_ofData] at listed
      cases listed
    · rw [Http.Reply.allow?_ofStop] at listed
      cases listed

theorem Refusal.dispatch_eq (refusal : Refusal crossOrigin e call allow) :
    (dispatch verifier crossOrigin e call store).1 = .methodNotAllowed allow := by
  rw [dispatch, refusal.plan_eq, perform]

/-- A method that is not forbidden and has something to run, or asks for options, is no reason to
refuse a call. -/
theorem Refusal.unservable {m : HttpMethod} (named : call.method = m.name)
    (refusal : Refusal crossOrigin e call allow) :
    e.access m = .forbidden ∨ m ≠ .options ∧ e.chain m = [] := by
  cases refusal with
  | unknown unnamed => exact absurd named (unnamed m)
  | forbidden named' _ forbidden =>
    obtain rfl := HttpMethod.name_injective (named'.symm.trans named)
    exact .inl forbidden
  | unserved named' notOptions _ empty =>
    obtain rfl := HttpMethod.name_injective (named'.symm.trans named)
    exact .inr ⟨notOptions, empty⟩

/-- At each of the three places where a call is refused for its method, the status is that of a
refusal, and a client reads a list without that method and without any that is forbidden, but with
every one that could be run, in their order and each once. There is no such list in any other
reply, and without one the status was chosen by a policy or by a handler. So it is with a method
that is not forbidden, if it has something to run or asks for options. -/
theorem refusals_are_coherent (verifier : Verifier) (crossOrigin : Bool) (e : Endpoint)
    (call : Call) (store : Store) :
    let reply := (dispatch verifier crossOrigin e call store).1
    (∀ allow, Refusal crossOrigin e call allow →
      reply.status = 405 ∧ reply.allow? = some (allow.map (·.name))) ∧
    (∀ names, reply.allow? = some names →
      (∃ allow, Refusal crossOrigin e call allow ∧ names = allow.map (·.name)) ∧
      Coherent e call names) ∧
    (reply.status = 405 → reply.allow? = none →
      Chosen verifier crossOrigin e call store 405) ∧
    (∀ m : HttpMethod, call.method = m.name → e.access m ≠ .forbidden →
      m = .options ∨ e.chain m ≠ [] →
      reply.allow? = none ∧
        (reply.status = 405 → Chosen verifier crossOrigin e call store 405)) := by
  intro reply
  refine ⟨fun allow refusal => ?_, fun names listed => ?_, chosen_of_status,
    fun m named free served => ?_⟩
  · rw [show reply = .methodNotAllowed allow from refusal.dispatch_eq]
    exact ⟨rfl, Http.Reply.allow?_methodNotAllowed allow⟩
  · obtain ⟨allow, refusal, same⟩ := refusal_of_allow? listed
    exact ⟨⟨allow, refusal, same⟩, same ▸ refusal.coherent⟩
  · have missing : reply.allow? = none := by
      refine Option.eq_none_iff_forall_ne_some.mpr fun names listed => ?_
      obtain ⟨allow, refusal, _⟩ := refusal_of_allow? listed
      rcases refusal.unservable named with forbidden | ⟨notOptions, empty⟩
      · exact free forbidden
      · exact served.elim notOptions (· empty)
    exact ⟨missing, fun refuses => chosen_of_status refuses missing⟩

/-- A board that is read by anyone, and from which nothing is deleted. -/
def board : Endpoint where
  key := "/board"
  path := "/board"
  access := AuthTable.assign (fun _ => .required .anyone) (· = .http .delete) .forbidden
  fields := []
  cors := {}
  handlers := HandlerTable.empty.assign (· = .get) [⟨"readMany", Crud.readMany.handler⟩]
  filters := .empty
  channel := {}
  collection := some "board"

/-- Nothing but reading is served there, and a method with nothing to run is told so; an unknown
method is told all that is not forbidden. -/
theorem board_lists_two_ways :
    let ask (method : String) :=
      (dispatch (fun _ => .ok {}) true board { method } (.new Nat.repr)).1
    (ask "HEAD").allow? = some ["GET", "OPTIONS"] ∧
    (ask "FETCH").allow? = some ["GET", "HEAD", "OPTIONS", "POST", "PUT", "PATCH"] ∧
    (ask "GET").allow? = none := by
  intro ask
  have coherent (method : String) :=
    refusals_are_coherent (fun _ => .ok {}) true board { method } (.new Nat.repr)
  have unserved : Refusal true board { method := "HEAD" } (servable board) :=
    .unserved (m := .head) rfl (by decide) (by nofun) rfl
  have unknown : Refusal true board { method := "FETCH" } board.access.allowed :=
    .unknown fun m => by cases m <;> decide
  exact ⟨((coherent "HEAD").1 _ unserved).2, ((coherent "FETCH").1 _ unknown).2,
    ((coherent "GET").2.2.2 .get rfl (by nofun) (.inr (by nofun))).1⟩

end Serving

end EndpointTree
