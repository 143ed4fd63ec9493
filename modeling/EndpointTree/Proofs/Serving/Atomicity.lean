import EndpointTree.Proofs.Serving.Chains
import EndpointTree.Proofs.Serving.WriteProtection

/-!
# Storage calls that fail

A storage handler either performs the one operation that it names and hands its result on, or
it stops, and then everything is as it was: the records, the published changes and the status
that was chosen so far. What it stops for has an order: no collection, then what is wrong with
the call itself, then a record that is not there. A client can therefore rely on it that a
call of such a handler that is answered with an error has done nothing.

* `Store.Refused` and `Store.Misses`: what an operation fails for.
* `Crud.Answers`: what a storage handler can do, with the reason for it.
* `Serving.storage_errors_are_atomic`: it does that, and no error reply leaves a trace.
-/

namespace EndpointTree

/-! ## Operations -/

namespace Store

variable {s : Store} {o : Operation} {fault : StoreFault} {c id : String}
  {members : List (String × Json)}

/-- What an operation is refused for, before any record is looked for. -/
inductive Refused (s : Store) : Operation → StoreFault → Prop
  | notAnObject {o : Operation} {data : Json} :
    o.data? = some data → data.members? = none → Refused s o (.invalidData (.notAnObject data))
  | idNotText {c : String} {data given : Json} :
    data.member? "id" = some given → given.string? = none →
    Refused s (.create c data) (.invalidData (.idNotText given))
  | idTaken {c id : String} {data : Json} :
    data.members? ≠ none → (Operation.create c data).id? s = some id → s.readOne c id ≠ none →
    Refused s (.create c data) (.invalidData (.duplicateId id))
  | cursor {c given : String} {q : Query} :
    q.cursor = some given → Text.unsigned? Text.count64 given = none →
    Refused s (.readMany c q) (.invalidQuery (.cursorNotNumber given))

/-- An operation is about a record that is not there. One that is to be created need not be. -/
def Misses (s : Store) (o : Operation) : Prop :=
  o.kind? ≠ some .created ∧ ∃ id, o.id? s = some id ∧ s.readOne o.collection id = none

theorem exists_members_of_valid {data : Json} (valid : ∀ fault, ¬ Refused s o fault)
    (given : o.data? = some data) : ∃ members, data = .object members := by
  cases data with
  | object members => exact ⟨members, rfl⟩
  | null | bool | number | string | array => exact absurd (.notAnObject given rfl) (valid _)

theorem add_of_taken (members : List (String × Json)) (taken : s.readOne c id ≠ none) :
    s.add c id members = (.error (.invalidData (.duplicateId id)), s) := by
  rw [add]
  dsimp only
  rw [if_pos (any_hasId_iff.mpr taken)]

theorem add_of_fresh (members : List (String × Json)) (fresh : s.readOne c id = none) :
    ∃ record next, s.add c id members = (.ok record, next) := by
  rw [add]
  dsimp only
  rw [if_neg (any_hasId_iff.not.mpr (not_ne_iff.mpr fresh))]
  exact ⟨_, _, rfl⟩

/-- A record is added under its identifier; where that is drawn from the supply, the draw counts
once the record is in. -/
theorem create_eq_add (named : (Operation.create c (.object members)).id? s = some id) :
    s.create c (.object members) = s.add c id members ∨
      s.create c (.object members) = match s.add c id members with
        | (.ok record, next) => (.ok record, { next with drawn := s.nextDraw c + 1 })
        | (.error fault, _) => (.error fault, s) := by
  rw [create]
  rw [Operation.id?, Json.member?] at named
  cases given : members.lookup "id" with
  | none =>
    rw [given] at named
    cases named
    exact .inr rfl
  | some value =>
    rw [given] at named
    cases value with
    | string text =>
      cases named
      exact .inl rfl
    | null | bool | number | array | object => cases named

theorem create_of_taken (named : (Operation.create c (.object members)).id? s = some id)
    (taken : s.readOne c id ≠ none) :
    s.create c (.object members) = (.error (.invalidData (.duplicateId id)), s) := by
  have added := add_of_taken members taken
  rcases create_eq_add named with given | drawn
  · rw [given, added]
  · rw [drawn, added]

theorem create_of_fresh (named : (Operation.create c (.object members)).id? s = some id)
    (fresh : s.readOne c id = none) :
    ∃ record next, s.create c (.object members) = (.ok record, next) := by
  obtain ⟨record, next, added⟩ := add_of_fresh members fresh
  rcases create_eq_add named with given | drawn
  · exact ⟨record, next, given.trans added⟩
  · rw [drawn, added]
    exact ⟨record, _, rfl⟩

/-- A record without an identifier of its own is always added, if the supply repeats nothing. -/
theorem create_of_unnamed (distinct : s.supply.Injective) (unnamed : members.lookup "id" = none) :
    ∃ record next, s.create c (.object members) = (.ok record, next) := by
  refine create_of_fresh ?_ (readOne_nextDraw s distinct c)
  simp only [Operation.id?, Json.member?, unnamed]

/-- A refused operation leaves the store as it was. -/
theorem perform_of_refused (refused : Refused s o fault) : o.perform s = (.error fault, s) := by
  cases refused with
  | @notAnObject _ data given shape =>
    cases o with
    | create c own | update c id own | patch c id own =>
      cases given
      cases data with
      | object members => cases shape
      | null | bool | number | string | array => rfl
    | readOne | readMany | remove => cases given
  | @idNotText c data given held shape =>
    cases data with
    | object members =>
      rw [Operation.perform, create, show members.lookup "id" = some given from held]
      cases given with
      | string text => cases shape
      | null | bool | number | array | object => rfl
    | null | bool | number | string | array => cases held
  | @idTaken c id data shape named taken =>
    cases data with
    | object members =>
      rw [Operation.perform, create_of_taken named taken]
      rfl
    | null | bool | number | string | array => exact absurd rfl shape
  | @cursor c given q placed shape =>
    rw [Operation.perform, readMany, Query.offset, placed]
    dsimp only
    rw [shape]
    rfl

/-- The error of an operation on a record that is not there. -/
def Operation.missing : Operation → ApiError
  | .update collection id _ => ⟨.notFound, s!"record '{id}' not found in '{collection}'"⟩
  | .create .. | .readOne .. | .readMany .. | .patch .. | .remove .. =>
    ⟨.notFound, "Record not found"⟩

theorem Operation.ofError_missing (o : Operation) :
    Stop.ofError o.missing = ⟨404, some o.missing.toJson⟩ := by
  cases o <;> rfl

/-- An operation that is not refused, but misses its record, leaves the store as it was. -/
theorem perform_of_misses (valid : ∀ fault, ¬ Refused s o fault) (misses : Misses s o) :
    o.perform s = (.ok none, s) ∧ o.missing = ⟨.notFound, "Record not found"⟩ ∨
      ∃ fault, o.perform s = (.error fault, s) ∧ o.missing = .ofStoreFault fault := by
  obtain ⟨present, id, named, absent⟩ := misses
  cases o with
  | create => exact absurd rfl present
  | readMany => cases named
  | readOne c id =>
    cases named
    rw [Operation.perform, show s.readOne c id = none from absent]
    exact .inl ⟨rfl, rfl⟩
  | update c id data =>
    cases named
    obtain ⟨members, rfl⟩ := exists_members_of_valid valid rfl
    have fresh : s.readOne c id = none := absent
    refine .inr ⟨.notFound c id, ?_, rfl⟩
    rw [Operation.perform, update]
    dsimp only
    rw [if_neg (any_hasId_iff.not.mpr (not_ne_iff.mpr fresh))]
    rfl
  | patch c id data =>
    cases named
    obtain ⟨members, rfl⟩ := exists_members_of_valid valid rfl
    refine .inl ⟨?_, rfl⟩
    rw [Operation.perform, patch]
    dsimp only
    rw [show (s.records c).find? (hasId id) = none from absent]
  | remove c id =>
    cases named
    refine .inl ⟨?_, rfl⟩
    rw [Operation.perform, remove]
    dsimp only
    rw [show (s.records c).find? (hasId id) = none from absent]

/-- An operation that is not refused and misses no record is performed. -/
theorem perform_of_present (valid : ∀ fault, ¬ Refused s o fault) (present : ¬ Misses s o) :
    ∃ value next, o.perform s = (.ok (some value), next) := by
  cases o with
  | create c data =>
    obtain ⟨members, rfl⟩ := exists_members_of_valid valid rfl
    cases named : (Operation.create c (.object members)).id? s with
    | none =>
      rw [Operation.id?] at named
      split at named
      · next given held => exact absurd (.idNotText held named) (valid _)
      · cases named
    | some id =>
      have fresh : s.readOne c id = none :=
        not_ne_iff.mp fun taken => valid _ (.idTaken (Option.some_ne_none members) named taken)
      obtain ⟨record, next, created⟩ := create_of_fresh named fresh
      rw [Operation.perform, created]
      exact ⟨record, next, rfl⟩
  | readMany c q =>
    rw [Operation.perform, readMany, Query.offset]
    cases placed : q.cursor with
    | none => exact ⟨_, s, rfl⟩
    | some given =>
      cases read : Text.unsigned? Text.count64 given with
      | none => exact absurd (.cursor placed read) (valid _)
      | some offset =>
        dsimp only
        rw [read]
        exact ⟨_, s, rfl⟩
  | readOne c id =>
    cases found : s.readOne c id with
    | none => exact absurd ⟨by rintro ⟨⟩, id, rfl, found⟩ present
    | some record =>
      rw [Operation.perform, found]
      exact ⟨record, s, rfl⟩
  | update c id data =>
    obtain ⟨members, rfl⟩ := exists_members_of_valid valid rfl
    have found : s.readOne c id ≠ none := fun absent => present ⟨by rintro ⟨⟩, id, rfl, absent⟩
    rw [Operation.perform, update]
    dsimp only
    rw [if_pos (any_hasId_iff.mpr found)]
    exact ⟨_, _, rfl⟩
  | patch c id data =>
    obtain ⟨changes, rfl⟩ := exists_members_of_valid valid rfl
    rw [Operation.perform, patch]
    dsimp only
    cases found : (s.records c).find? (hasId id) with
    | none => exact absurd ⟨by rintro ⟨⟩, id, rfl, found⟩ present
    | some record => exact ⟨_, _, rfl⟩
  | remove c id =>
    rw [Operation.perform, remove]
    dsimp only
    cases found : (s.records c).find? (hasId id) with
    | none => exact absurd ⟨by rintro ⟨⟩, id, rfl, found⟩ present
    | some record => exact ⟨_, _, rfl⟩

end Store

/-! ## Handlers -/

namespace Crud

variable {op : Crud} {data : Json} {x : Exchange} {o : Store.Operation} {e : ApiError}

/-- An operation is on the one record that the path names. -/
def isSingle : Crud → Bool
  | .readOne | .update | .patch | .remove => true
  | .create | .readMany => false

/-- What is wrong with a call itself, at an endpoint with a collection. -/
inductive Invalid (op : Crud) (data : Json) (x : Exchange) : ApiError → Prop
  | noId : x.collection ≠ none → op.isSingle = true → x.params.get? "id" = none →
    Invalid op data x ⟨.badRequest, s!"'{op.name}' requires an :id path parameter"⟩
  | limit {given : String} : x.collection ≠ none → op = .readMany →
    x.query.get? "$limit" = some given → Text.unsigned? Text.count64 given = none →
    Invalid op data x ⟨.badRequest, s!"$limit must be a number, got '{given}'"⟩
  | refused {o : Store.Operation} {fault : StoreFault} :
    op.operation? data x = some o → Store.Refused x.store o fault →
    Invalid op data x (.ofStoreFault fault)

/-- What a storage handler can do. Each rule has all that it takes, so no two of them apply. -/
inductive Answers (op : Crud) (data : Json) (x : Exchange) : Step Json × Exchange → Prop
  | unbound : x.collection = none → Answers op data x (.stop ⟨500, none⟩, x)
  | invalid {e : ApiError} : Invalid op data x e → Answers op data x (.stop ⟨400, some e.toJson⟩, x)
  | missing {o : Store.Operation} : op.operation? data x = some o →
    (∀ e, ¬ Invalid op data x e) → Store.Misses x.store o →
    Answers op data x (.stop ⟨404, some o.missing.toJson⟩, x)
  | performed {o : Store.Operation} {value : Json} {next : Store} :
    op.operation? data x = some o → (∀ e, ¬ Invalid op data x e) → ¬ Store.Misses x.store o →
    o.perform x.store = (.ok (some value), next) →
    Answers op data x (.proceed value,
      { x with store := next, status := if op = .create then some 201 else x.status })

/-- How a handler ends whose operation answered. -/
def ending (op : Crud) (x : Exchange) : Store.Answer × Store → Step Json × Exchange
  | (.ok (some value), store) =>
    (.proceed value, { x with store, status := if op = .create then some 201 else x.status })
  | (.ok none, store) => (.stop missingRecord, { x with store })
  | (.error fault, store) => (.stop (.ofError (.ofStoreFault fault)), { x with store })

theorem handler_eq_ending (named : op.operation? data x = some o) :
    op.handler data x = op.ending x (o.perform x.store) := by
  rw [operation?] at named
  rw [handler]
  cases bound : x.collection with
  | none =>
    rw [bound] at named
    cases named
  | some collection =>
    rw [bound] at named
    cases op with
    | create =>
      cases named
      simp only [perform, Store.Operation.perform]
      rcases x.store.create collection data with ⟨_ | _, store⟩ <;> rfl
    | readMany =>
      simp only [perform]
      dsimp only at named
      cases asked : Query.ofParams x.query with
      | error fault =>
        rw [asked] at named
        cases named
      | ok q =>
        rw [asked] at named
        cases named
        simp only [Store.Operation.perform]
        cases x.store.readMany collection q <;> rfl
    | readOne =>
      obtain ⟨id, given, rfl⟩ := Option.map_eq_some_iff.mp named
      simp only [perform, onRecord, given, Store.Operation.perform]
      cases x.store.readOne collection id <;> rfl
    | update =>
      obtain ⟨id, given, rfl⟩ := Option.map_eq_some_iff.mp named
      simp only [perform, onRecord, given, Store.Operation.perform]
      rcases x.store.update collection id data with ⟨_ | _, store⟩ <;> rfl
    | patch =>
      obtain ⟨id, given, rfl⟩ := Option.map_eq_some_iff.mp named
      simp only [perform, onRecord, given, Store.Operation.perform]
      rcases x.store.patch collection id data with ⟨_ | _ | _, store⟩ <;> rfl
    | remove =>
      obtain ⟨id, given, rfl⟩ := Option.map_eq_some_iff.mp named
      simp only [perform, onRecord, given, Store.Operation.perform]
      rcases x.store.remove collection id with ⟨_ | _, store⟩ <;> rfl

/-- The operation that a handler names is on the collection of the endpoint and, if it is on a
single record, on the one that the path names. -/
theorem collection_of_operation? (named : op.operation? data x = some o) :
    x.collection = some o.collection ∧
      (op.isSingle = true → x.params.get? "id" = o.id? x.store) := by
  rw [operation?] at named
  cases bound : x.collection with
  | none =>
    rw [bound] at named
    cases named
  | some collection =>
    rw [bound] at named
    cases op with
    | create =>
      cases named
      exact ⟨rfl, by rintro ⟨⟩⟩
    | readMany =>
      obtain ⟨q, -, rfl⟩ := Option.map_eq_some_iff.mp named
      exact ⟨rfl, by rintro ⟨⟩⟩
    | readOne | update | patch | remove =>
      obtain ⟨id, given, rfl⟩ := Option.map_eq_some_iff.mp named
      exact ⟨rfl, fun _ => given⟩

/-- Where a collection is bound but no operation is named, something is wrong with the call. -/
theorem exists_invalid (bound : x.collection ≠ none) (unnamed : op.operation? data x = none) :
    ∃ e, Invalid op data x e ∧ op.handler data x = (.stop (.ofError e), x) := by
  obtain ⟨collection, boundTo⟩ := Option.ne_none_iff_exists'.mp bound
  rw [operation?, boundTo] at unnamed
  rw [handler, boundTo]
  cases op with
  | create => cases unnamed
  | readMany =>
    cases limited : x.query.get? "$limit" with
    | none =>
      simp only [Query.ofParams, limited] at unnamed
      cases unnamed
    | some given =>
      cases read : Text.unsigned? Text.count64 given with
      | some limit =>
        simp only [Query.ofParams, limited, read] at unnamed
        cases unnamed
      | none =>
        refine ⟨_, .limit bound rfl limited read, ?_⟩
        simp only [perform, Query.ofParams, limited, read]
        rfl
  | readOne | update | patch | remove =>
    have missing := Option.map_eq_none_iff.mp unnamed
    refine ⟨_, .noId bound rfl missing, ?_⟩
    simp only [perform, onRecord, missing]
    rfl

theorem Invalid.ofError_eq (invalid : Invalid op data x e) :
    Stop.ofError e = ⟨400, some e.toJson⟩ := by
  cases invalid with
  | noId | limit => rfl
  | refused named refused => cases refused <;> rfl

/-- Where an operation is named, nothing is wrong with the call but what it is refused for. -/
theorem not_invalid (named : op.operation? data x = some o)
    (valid : ∀ fault, ¬ Store.Refused x.store o fault) : ¬ Invalid op data x e := by
  intro invalid
  cases invalid with
  | noId bound single missing =>
    obtain ⟨collection, boundTo⟩ := Option.ne_none_iff_exists'.mp bound
    have unnamed : op.operation? data x = none := by
      rw [operation?, boundTo]
      cases op with
      | create | readMany => cases single
      | readOne | update | patch | remove => exact Option.map_eq_none_iff.mpr missing
    cases unnamed.symm.trans named
  | @limit given bound lists limited unread =>
    obtain ⟨collection, boundTo⟩ := Option.ne_none_iff_exists'.mp bound
    subst lists
    simp only [operation?, boundTo, Query.ofParams, limited, unread] at named
    cases named
  | refused named' refused =>
    cases named.symm.trans named'
    exact valid _ refused

/-- A storage handler does what it can do. -/
theorem answers (op : Crud) (data : Json) (x : Exchange) :
    op.Answers data x (op.handler data x) := by
  by_cases bound : x.collection = none
  · rw [handler, bound]
    exact .unbound bound
  · cases named : op.operation? data x with
    | none =>
      obtain ⟨e, invalid, stops⟩ := exists_invalid bound named
      rw [stops, invalid.ofError_eq]
      exact .invalid invalid
    | some o =>
      rw [handler_eq_ending named]
      by_cases refused : ∃ fault, Store.Refused x.store o fault
      · obtain ⟨fault, refused⟩ := refused
        have invalid : Invalid op data x _ := .refused named refused
        rw [Store.perform_of_refused refused, ending, invalid.ofError_eq]
        exact .invalid invalid
      · have valid := not_exists.mp refused
        by_cases misses : Store.Misses x.store o
        · have missing := Answers.missing named (fun _ => not_invalid named valid) misses
          rw [← o.ofError_missing] at missing
          rcases Store.perform_of_misses valid misses with
            ⟨performed, errorEq⟩ | ⟨fault, performed, errorEq⟩
          · rw [performed, ending, missingRecord, ← errorEq]
            exact missing
          · rw [performed, ending, ← errorEq]
            exact missing
        · obtain ⟨value, next, performed⟩ := Store.perform_of_present valid misses
          rw [performed]
          exact .performed named (fun _ => not_invalid named valid) misses performed

end Crud

/-! ## Calls -/

theorem Http.Reply.status_ofData (status : Nat) (data : Json) :
    (Http.Reply.ofData status data).status = status := by
  rw [ofData]
  split
  · next same => exact same.symm
  · rfl

namespace Serving

variable {app : Application} {verifier : Verifier} {crossOrigin : Bool} {e : Endpoint}
  {call : Call} {store : Store} {request : Http.Request}

/-- The chain of each method of that name is a storage handler and nothing else. -/
def StoresOnly (e : Endpoint) (method : String) : Prop :=
  ∀ m, method = HttpMethod.name m → ∃ name op, e.chain m = [⟨name, Crud.handler op⟩]

theorem runChain_of_storesOnly {m : HttpMethod} {auth : AuthContext} {input : Json}
    {name : String} {op : Crud} (chain : e.chain m = [⟨name, op.handler⟩])
    (failed : 400 ≤ (runChain e m call auth input store).1.status) :
    (runChain e m call auth input store).2 = store := by
  rw [runChain, chain, Chain.run] at failed ⊢
  dsimp only at failed ⊢
  have answered := op.answers (cleanInput e m auth input) (exchange e m call auth store)
  generalize op.handler _ _ = answer at answered failed ⊢
  cases answered with
  | unbound | invalid | missing => rfl
  | @performed o value next named valid present performed =>
    have accepted : ((if op = .create then some 201 else none).getD 200) < 400 := by
      split <;> decide
    dsimp only [Chain.run, conclude] at failed
    rw [Http.Reply.status_ofData] at failed
    exact absurd failed (Nat.not_le.mpr accepted)

/-- An endpoint whose chain is a storage handler replies with an error only if the store is as
it was. -/
theorem dispatch_of_storesOnly (stores : StoresOnly e call.method)
    (failed : 400 ≤ (dispatch verifier crossOrigin e call store).1.status) :
    (dispatch verifier crossOrigin e call store).2 = store := by
  rw [dispatch] at failed ⊢
  cases planned : plan verifier crossOrigin e call with
  | answer reply => rfl
  | run m auth input =>
    obtain ⟨called, -⟩ := exists_of_plan_eq_run planned
    obtain ⟨name, op, chain⟩ := stores m called
    rw [planned] at failed
    exact runChain_of_storesOnly chain failed

theorem answerEndpoint_of_storesOnly {params query : Dict String}
    (stores : StoresOnly e request.method)
    (failed : 400 ≤ (app.answerEndpoint e params query request store).1.status) :
    (app.answerEndpoint e params query request store).2 = store := by
  let call : Call := ⟨request.method, params, query, request.headers, request.body⟩
  have keeps := @dispatch_of_storesOnly app.verifier app.settings.corsEnabled e call store stores
  rw [Application.answerEndpoint] at failed ⊢
  by_cases large : app.settings.maxRequestBytes < request.body.size
  · rw [if_pos large]
    dsimp only
    split <;> rfl
  · rw [if_neg large] at failed ⊢
    generalize dispatch app.verifier _ e _ store = answer at keeps failed ⊢
    obtain ⟨reply, next⟩ := answer
    dsimp only at keeps failed ⊢
    -- Cross-origin headers leave the status and the store alone.
    by_cases decorated :
      (app.settings.corsEnabled && request.method ≠ HttpMethod.options.name) = true
    · rw [if_pos decorated] at failed ⊢
      exact keeps failed
    · rw [if_neg decorated] at failed ⊢
      exact keeps failed

/-- The endpoint that a request is routed to, if it is routed to one. -/
def RouteTable.endpointFor? (table : RouteTable) (request : Http.Request) : Option Endpoint :=
  (table.find? request.target.path).bind fun (destination, _) => destination.endpoint?

theorem answer_of_storesOnly {table : RouteTable} {now : String} {reply : Http.Reply}
    (stores : ∀ e ∈ table.endpointFor? request, StoresOnly e request.method)
    (replied : (app.answer table now request store).1 = .reply reply)
    (failed : 400 ≤ reply.status) : (app.answer table now request store).2 = store := by
  rw [RouteTable.endpointFor?] at stores
  rw [Application.answer] at replied ⊢
  cases found : table.find? request.target.path with
  | none => rfl
  | some hit =>
    obtain ⟨destination, groups⟩ := hit
    rw [found] at stores replied
    cases destination with
    | endpoint e =>
      cases replied
      exact answerEndpoint_of_storesOnly (stores e rfl) failed
    | health => rfl
    | channels beside =>
      dsimp only at replied ⊢
      by_cases fixed : Application.isFixedMethod request.method = true
      · rw [if_pos fixed]
      · rw [if_neg fixed] at replied ⊢
        cases beside with
        | none => rfl
        | some e =>
          cases replied
          exact answerEndpoint_of_storesOnly (stores e rfl) failed

/-- A storage handler never returns an error. Where it stops, the exchange is as it was, with
the records, the published changes and the status: it stops with a bare 500 at an endpoint
without a collection, else with a 400 where something is wrong with the call, else with a 404
where the record is not there. Otherwise the operation that it names was performed, its
result is handed on, and the status is 201 after a creation and else as it was. So a request
that is routed to an endpoint with nothing but such a handler in the chain is answered with
an error only if the store is as it was. -/
theorem storage_errors_are_atomic :
    (∀ (op : Crud) (data : Json) (x : Exchange),
      op.Answers data x (op.handler data x) ∧
        (∀ o, op.operation? data x = some o → x.collection = some o.collection ∧
          (op.isSingle = true → x.params.get? "id" = o.id? x.store)) ∧
        (∀ fault, (op.handler data x).1 ≠ .fail fault) ∧ (op.handler data x).1 ≠ .panic ∧
        ∀ stop, (op.handler data x).1 = .stop stop → (op.handler data x).2 = x) ∧
      ∀ (app : Application) (table : RouteTable) (now : String) (request : Http.Request)
        (store : Store) (reply : Http.Reply),
        (∀ e ∈ table.endpointFor? request, StoresOnly e request.method) →
        (app.answer table now request store).1 = .reply reply → 400 ≤ reply.status →
        (app.answer table now request store).2 = store := by
  constructor
  · intro op data x
    have answered := op.answers data x
    refine ⟨answered, fun o => Crud.collection_of_operation?, ?_⟩
    generalize op.handler data x = answer at answered
    cases answered with
    | unbound | invalid | missing => exact ⟨nofun, nofun, fun _ _ => rfl⟩
    | performed => exact ⟨nofun, nofun, nofun⟩
  · intro app table now request store reply stores replied failed
    exact answer_of_storesOnly stores replied failed

/-- A book in which anyone may write, and nobody may read. -/
def guestBook : Endpoint where
  key := "/notes"
  path := "/notes"
  access _ := .required .anyone
  fields := []
  cors := {}
  handlers := HandlerTable.empty.assign (· = .post) [⟨"create", Crud.create.handler⟩]
  filters := .empty
  channel := {}
  collection := some "notes"

/-- An entry that is no object is refused, and nothing is created. -/
theorem refused_entry_changes_nothing :
    let app : Application := ⟨.defaults .development, .node guestBook [], fun _ => .ok {}, none⟩
    let table : RouteTable :=
      ⟨[("/notes", .endpoint guestBook)], .node "/notes".toList (some ("/notes", [])) [] .none⟩
    let request : Http.Request :=
      { method := "POST", target := { path := "/notes".toList }, body := "[1]".toUTF8 }
    ∃ reply, (app.answer table "" request (.new Nat.repr)).1 = .reply reply ∧
      reply.status = 400 ∧ (app.answer table "" request (.new Nat.repr)).2 = .new Nat.repr := by
  intro app table request
  let reply := (app.answerEndpoint guestBook (.ofList []) (.ofList []) request (.new Nat.repr)).1
  have found : table.find? request.target.path = some (.endpoint guestBook, []) := by rfl
  have replied : (app.answer table "" request (.new Nat.repr)).1 = .reply reply := by
    rw [Application.answer, found]
    rfl
  have refused : reply.status = 400 := by decide +kernel
  refine ⟨reply, replied, refused, ?_⟩
  refine storage_errors_are_atomic.2 app table "" request _ reply ?_ replied ?_
  · intro e member m called
    rw [RouteTable.endpointFor?, found] at member
    cases member
    obtain rfl : m = .post := HttpMethod.name_injective called.symm
    exact ⟨"create", .create, rfl⟩
  · exact Nat.le_of_eq refused.symm

end Serving

end EndpointTree
