import EndpointTree.Channel.Observe
import EndpointTree.Proofs.Serving.FieldBoundary
import EndpointTree.Proofs.Store.Records

/-!
# Fields that a caller may not write

Redaction takes a field that the caller may not write out of the input, so no value of the
caller's reaches the store under it. What becomes of the field in a record that is there
already hangs on the operation. Creating and removing touch no record that stays, and
patching leaves what the input does not name; but updating puts the input in place of the
whole record, and a field that is missing in it is then gone.

* `Store.field_of_perform`: what an operation leaves under a field that its data lacks.
* `Serving.unwritable_fields_are_kept_or_dropped`: the same for a call whose chain ends in a
  storage operation.
* `Serving.update_drops_unwritable_field`: an update drops the field.
-/

namespace EndpointTree

/-- A denied field is gone from what is stripped. -/
theorem Redaction.member?_strip {denied : List String} {field : String} (gone : field ∈ denied)
    (v : Json) : (strip denied v).member? field = none := by
  have clean : Clean denied (strip denied v) := clean_strip v
  cases v with
  | object members =>
    rw [strip, clean_object_iff] at clean
    refine Json.lookup_eq_none_iff.mpr fun held => ?_
    obtain ⟨m, member, rfl⟩ := List.mem_map.mp held
    exact (clean m member).1 gone
  | null | bool | number | string | array => rfl

/-! ## Operations on data without the field -/

namespace Store

variable {s next : Store} {op : Operation} {field c i id : String} {before after record : Json}
  {kind : ChangeKind}

/-- Changes that lack a field leave it as it is. -/
theorem lookup_overlay_of_lacks {changes : List (String × Json)}
    (lacks : changes.lookup field = none) (existing : List (String × Json)) :
    (overlay changes existing).lookup field = existing.lookup field := by
  rw [overlay]
  induction changes generalizing existing with
  | nil => rfl
  | cons m rest ih =>
    obtain ⟨key, value⟩ := m
    rw [Dict.lookup_cons_ite] at lacks
    split at lacks
    · cases lacks
    · next other =>
      rw [List.foldl_cons, ih lacks]
      split
      · rfl
      · rw [Pairs.lookup_put, if_neg other]

theorem member?_patched {changes : List (String × Json)} (lacks : changes.lookup field = none)
    (record : Json) : (patched changes record).member? field = record.member? field := by
  cases record with
  | object existing => exact lookup_overlay_of_lacks lacks existing
  | null | bool | number | string | array => rfl

/-- What is written, where an operation changes a record that is there. -/
inductive Rewrites (s : Store) (c i : String) (record : Json) : Operation → Prop
  | update (members : List (String × Json)) :
    record = .object (Pairs.put "id" (.string i) members) →
    Rewrites s c i record (.update c i (.object members))
  | patch (changes : List (String × Json)) (existing : Json) :
    s.readOne c i = some existing → record = patched changes existing →
    Rewrites s c i record (.patch c i (.object changes))

/-- An update that succeeds rewrites the record. -/
theorem rewrites_of_update {data : Json}
    (answered : ((Operation.update c i data).perform s).1 = .ok (some record)) :
    Rewrites s c i record (.update c i data) := by
  cases data with
  | object members =>
    rw [Operation.perform, update] at answered
    dsimp only at answered
    split at answered
    · cases answered
      exact .update members rfl
    · cases answered
  | _ => cases answered

/-- A patch that succeeds rewrites the record. -/
theorem rewrites_of_patch {data : Json}
    (answered : ((Operation.patch c i data).perform s).1 = .ok (some record)) :
    Rewrites s c i record (.patch c i data) := by
  cases data with
  | object changes =>
    rw [Operation.perform, patch] at answered
    dsimp only at answered
    split at answered
    · cases answered
    · next existing found =>
      cases answered
      exact .patch changes existing found rfl
  | _ => cases answered

/-- A record that is there before and after an operation is the same, or it was rewritten. -/
theorem same_or_rewritten (sound : ∀ c, Sound (s.records c)) (op : Operation)
    (found : s.readOne c i = some before) (left : (op.perform s).2.readOne c i = some after) :
    after = before ∨ Rewrites s c i after op := by
  have done := performed s op
  cases answered : op.perform s with
  | mk answer next =>
    rw [answered] at done left
    cases done with
    | kept => exact .inl (Option.some.inj (left.symm.trans found))
    | @wrote kind id record next wrote =>
      rw [wrote.readOne_eq (sound _)] at left
      split at left
      · next here =>
        obtain ⟨rfl, rfl⟩ := here
        refine .inr ?_
        have kindEq := wrote.kind?_eq
        have idEq := wrote.id?_eq
        have edit := wrote.edit
        cases op with
        | create collection data =>
          cases kindEq
          generalize next.records _ = records at edit
          cases edit with
          | append fresh => cases found.symm.trans fresh
          | replace replaces => rcases replaces with equal | equal <;> cases equal
        | readOne | readMany => cases kindEq
        | update collection id data =>
          cases kindEq
          cases idEq
          cases left
          exact rewrites_of_update (congrArg Prod.fst answered)
        | patch collection id data =>
          cases kindEq
          cases idEq
          cases left
          exact rewrites_of_patch (congrArg Prod.fst answered)
        | remove collection id =>
          cases kindEq
          cases left
      · exact .inl (Option.some.inj (left.symm.trans found))

/-- The data that an operation is given. -/
def Operation.data? : Operation → Option Json
  | .create _ data | .update _ _ data | .patch _ _ data => some data
  | .readOne .. | .readMany .. | .remove .. => none

/-- Where data lacks a field, a record that stays has the same there as before, unless it
was updated: then it has nothing there. -/
theorem field_of_perform (sound : ∀ c, Sound (s.records c)) (op : Operation)
    (kept : field ≠ "id") (lacks : ∀ data ∈ op.data?, data.member? field = none)
    (found : s.readOne c i = some before) (left : (op.perform s).2.readOne c i = some after) :
    after.member? field = before.member? field ∨
      (∃ data, op = .update c i data) ∧ after.member? field = none := by
  rcases same_or_rewritten sound op found left with rfl | rewrites
  · exact .inl rfl
  · cases rewrites with
    | update members written =>
      have missing : members.lookup field = none := lacks (.object members) rfl
      refine .inr ⟨⟨_, rfl⟩, ?_⟩
      rw [written, Json.member?, Pairs.lookup_put, if_neg kept, missing]
    | patch changes existing found' written =>
      have missing : changes.lookup field = none := lacks (.object changes) rfl
      obtain rfl : before = existing := Option.some.inj (found.symm.trans found')
      rw [written]
      exact .inl (member?_patched missing before)

end Store

/-! ## Handlers -/

namespace Crud

/-- The operation on the store that a handler performs, if it comes that far. -/
def operation? (op : Crud) (data : Json) (x : Exchange) : Option Store.Operation :=
  match x.collection with
  | none => none
  | some collection =>
    match op with
    | .create => some (.create collection data)
    | .readMany => (Query.ofParams x.query).toOption.map (.readMany collection)
    | .readOne => (x.params.get? idParam).map (.readOne collection)
    | .update => (x.params.get? idParam).map fun id => .update collection id data
    | .patch => (x.params.get? idParam).map fun id => .patch collection id data
    | .remove => (x.params.get? idParam).map (.remove collection)

/-- What works on a record works on the one that the parameters name, or on none. -/
theorem store_onRecord {op : Crud} {x : Exchange} {work : String → Step Json × Store}
    {operation : String → Store.Operation}
    (same : ∀ id, (work id).2 = ((operation id).perform x.store).2) :
    (op.onRecord x work).2.store =
      (((x.params.get? idParam).map operation).map fun o =>
        (o.perform x.store).2).getD x.store := by
  rw [onRecord]
  cases x.params.get? idParam with
  | none => rfl
  | some id => exact same id

/-- A handler leaves the store as its operation does, or alone. -/
theorem store_handler (op : Crud) (data : Json) (x : Exchange) :
    (op.handler data x).2.store =
      ((op.operation? data x).map fun o => (o.perform x.store).2).getD x.store := by
  rw [handler, operation?]
  cases x.collection with
  | none => rfl
  | some collection =>
    cases op with
    | create =>
      simp only [perform, Option.map_some, Option.getD_some, Store.Operation.perform]
      cases created : x.store.create collection data with
      | mk result store => cases result <;> rfl
    | readMany =>
      simp only [perform]
      cases Query.ofParams x.query <;> rfl
    | readOne | update | patch | remove => exact store_onRecord fun id => rfl

/-- An operation is given the data of the step, if any. -/
theorem data?_of_operation? {op : Crud} {data : Json} {x : Exchange} {o : Store.Operation}
    (performed : op.operation? data x = some o) : ∀ given ∈ o.data?, given = data := by
  intro given carried
  rw [operation?] at performed
  split at performed
  · cases performed
  · cases op with
    | create =>
      cases performed
      exact (Option.some.inj carried).symm
    | readMany | readOne | remove =>
      obtain ⟨_, -, rfl⟩ := Option.map_eq_some_iff.mp performed
      cases carried
    | update | patch =>
      obtain ⟨_, -, rfl⟩ := Option.map_eq_some_iff.mp performed
      exact (Option.some.inj carried).symm

theorem operation?_eq_update {op : Crud} {data given : Json} {x : Exchange} {c i : String}
    (performed : op.operation? data x = some (.update c i given)) :
    op = .update ∧ x.collection = some c ∧ x.params.get? idParam = some i := by
  rw [operation?] at performed
  split at performed
  · cases performed
  · next bound =>
    cases op with
    | create => cases performed
    | readMany | readOne | patch | remove =>
      obtain ⟨_, -, equal⟩ := Option.map_eq_some_iff.mp performed
      cases equal
    | update =>
      obtain ⟨id, named, equal⟩ := Option.map_eq_some_iff.mp performed
      cases equal
      exact ⟨rfl, bound, named⟩

end Crud

/-! ## Chains -/

/-- A step hands no field on that it was not given, and it changes neither the store nor
what names the collection and the record. -/
structure NamedHandler.HandsOnWithout (step : NamedHandler) (field : String) : Prop where
  data : ∀ data x next, data.member? field = none → (step.run data x).1 = .proceed next →
    next.member? field = none
  exchange : ∀ data x, (step.run data x).2.store = x.store ∧
    (step.run data x).2.collection = x.collection ∧ (step.run data x).2.params = x.params

/-- Behind such steps the last one is not run at all, or on data that lacks the field. -/
theorem Chain.run_concat {filters : Chain} {last : NamedHandler} {field : String}
    (without : ∀ step ∈ filters, step.HandsOnWithout field) {data : Json}
    (lacks : data.member? field = none) (x : Exchange) :
    (run (filters ++ [last]) data x).2.store = x.store ∨
      ∃ given y, given.member? field = none ∧
        (y.store = x.store ∧ y.collection = x.collection ∧ y.params = x.params) ∧
        (run (filters ++ [last]) data x).2 = (last.run given y).2 := by
  induction filters generalizing data x with
  | nil =>
    refine .inr ⟨data, x, lacks, ⟨rfl, rfl, rfl⟩, ?_⟩
    rw [List.nil_append, run]
    cases last.run data x with
    | mk outcome left => cases outcome <;> rfl
  | cons step rest ih =>
    obtain ⟨first, others⟩ := List.forall_mem_cons.mp without
    have handed := first.data data x
    have kept := first.exchange data x
    rw [List.cons_append, run]
    cases ran : step.run data x with
    | mk outcome left =>
      rw [ran] at handed kept
      cases outcome with
      | stop | fail | panic => exact .inl kept.1
      | proceed next =>
        obtain ⟨store, collection, params⟩ := kept
        rcases ih others (handed next lacks rfl) left with untouched | ⟨given, y, lacks, same, ends⟩
        · exact .inl (untouched.trans store)
        · rw [store, collection, params] at same
          exact .inr ⟨given, y, lacks, same, ends⟩

/-! ## Calls -/

namespace Serving

variable {verifier : Verifier} {crossOrigin : Bool} {e : Endpoint} {call : Call} {m : HttpMethod}
  {op : Crud} {step field : String}

/-- A call of a storage operation leaves the store alone, or the operation is performed on
data without the fields that the caller may not write. -/
theorem store_dispatch (called : call.method = m.name) (writes : m.isRead = false)
    (handler : e.handlers m = [⟨step, op.handler⟩])
    (filters : ∀ step ∈ e.filters m, step.HandsOnWithout field)
    (gone : ∀ auth, Gate.authorize verifier e.access (gateRequest e m call) = .authorized auth →
      field ∈ denied e m auth) (s : Store) :
    (dispatch verifier crossOrigin e call s).2 = s ∨
      ∃ given x o, given.member? field = none ∧ x.collection = e.collection ∧
        x.params = call.params ∧ op.operation? given x = some o ∧
        (dispatch verifier crossOrigin e call s).2 = (o.perform s).2 := by
  rw [dispatch]
  cases planned : plan verifier crossOrigin e call with
  | answer reply => exact .inl rfl
  | run m' auth input =>
    obtain ⟨named, -, authorized⟩ := exists_of_plan_eq_run planned
    obtain rfl : m' = m := HttpMethod.name_injective (named.symm.trans called)
    have chain : e.chain m' = e.filters m' ++ [⟨step, op.handler⟩] := by
      rw [Endpoint.chain, writes, handler]
      rfl
    have lacks : (cleanInput e m' auth input).member? field = none := by
      rw [cleanInput, writes]
      exact Redaction.member?_strip (gone auth authorized) input
    rw [perform, runChain, chain]
    dsimp only
    rcases Chain.run_concat filters lacks (exchange e m' call auth s) with
      untouched | ⟨given, x, lacks, ⟨store, collection, params⟩, ends⟩
    · exact .inl untouched
    · rw [ends, Crud.store_handler, store]
      cases performed : op.operation? given x with
      | none => exact .inl rfl
      | some o => exact .inr ⟨given, x, o, lacks, collection, params, performed, rfl⟩

/-- A field that a caller may not write is the same after a call as before it, in every
record that is there before and after. The one exception is the record that an update
names: the field is gone from it, whatever it was. The filters of the chain, if it has any,
hand no such field on. -/
theorem unwritable_fields_are_kept_or_dropped (called : call.method = m.name)
    (writes : m.isRead = false) (handler : e.handlers m = [⟨step, op.handler⟩])
    (filters : ∀ step ∈ e.filters m, step.HandsOnWithout field) (kept : field ≠ "id")
    (gone : ∀ auth, Gate.authorize verifier e.access (gateRequest e m call) = .authorized auth →
      field ∈ denied e m auth)
    (supply : Nat → String) (ops : List Store.Operation) :
    let s := (Store.new supply).after ops
    let next := (dispatch verifier crossOrigin e call s).2
    ∀ c i before after, s.readOne c i = some before → next.readOne c i = some after →
      after.member? field = before.member? field ∨
        op = .update ∧ e.collection = some c ∧ call.params.get? Crud.idParam = some i ∧
          after.member? field = none := by
  intro s next c i before after found left
  have sound := (Store.reflects_after supply ops).sound
  rcases (store_dispatch called writes handler filters gone s : next = s ∨ _) with
    untouched | ⟨given, x, o, lacks, collection, params, performed, performs⟩
  · rw [show next = s from untouched, found] at left
    exact .inl (congrArg _ (Option.some.inj left).symm)
  · rw [show next = (o.perform s).2 from performs] at left
    have carried : ∀ data ∈ o.data?, data.member? field = none := by
      intro data member
      rwa [Crud.data?_of_operation? performed data member]
    rcases Store.field_of_perform sound o kept carried found left with
      same | ⟨⟨data, rfl⟩, dropped⟩
    · exact .inl same
    · obtain ⟨updates, bound, named⟩ := Crud.operation?_eq_update performed
      exact .inr ⟨updates, collection ▸ bound, params ▸ named, dropped⟩

/-! ## Posts that await approval -/

/-- Posts that anyone may write; nobody may say that one is approved. Patches are reviewed. -/
def posts : Json :=
  .object [("/:id", .object [("collection", .string "posts"),
    ("auth", .object [("write", .bool true),
      ("fields", .object [("approved", .object [("write", .bool false)])])]),
    ("filters", .object [("PATCH", .string "review")]),
    ("handlers", .object [("PUT", .string "update"), ("PATCH", .string "patch")])])]

/-- The storage handlers, and a review of what comes in. -/
def reviewedBy (review : Json → Json) : Registry :=
  Registry.builtins.addHandler "review" fun data x => (.proceed (review data), x)

/-- A call that writes an empty object to the first post. -/
def rewriting (m : HttpMethod) : Call where
  method := m.name
  params := Dict.empty.insert "id" "1"
  body := "{}".toUTF8

/-- The store with one post, which is approved. -/
def posted : Store :=
  (Store.new Nat.repr).after
    [.create "posts" (.object [("id", .string "1"), ("approved", .bool true)])]

theorem reviewed_posts_stay_approved :
    ∃ model e, Model.ofJson (reviewedBy id) {} posts = .ok model ∧ e ∈ model.values ∧
      let next := (dispatch (fun _ => .ok {}) true e (rewriting .patch) posted).2
      (posted.readOne "posts" "1").isSome ∧ ∀ after ∈ next.readOne "posts" "1",
        after.member? "approved" = some (.bool true) := by
  obtain ⟨model, e, accepted, member, handler, filters, gone⟩ :
      ∃ model e, Model.ofJson (reviewedBy id) {} posts = .ok model ∧ e ∈ model.values ∧
        e.handlers .patch = [⟨"patch", Crud.patch.handler⟩] ∧
        e.filters .patch = [⟨"review", fun data x => (.proceed (id data), x)⟩] ∧
        ∀ auth, "approved" ∈ denied e .patch auth :=
    ⟨_, _, rfl, List.mem_cons_of_mem _ List.mem_cons_self, rfl, rfl,
      fun _ => List.mem_cons_self⟩
  refine ⟨model, e, accepted, member, by decide +kernel, fun after left => ?_⟩
  have review : ∀ step ∈ e.filters .patch, step.HandsOnWithout "approved" := by
    rw [filters]
    refine List.forall_mem_singleton.mpr
      ⟨fun data x next lacks handed => ?_, fun _ _ => ⟨rfl, rfl, rfl⟩⟩
    cases handed
    exact lacks
  rcases unwritable_fields_are_kept_or_dropped
      (show (rewriting .patch).method = HttpMethod.patch.name from rfl) rfl handler review
      (by decide) (fun auth _ => gone auth) Nat.repr _ "posts" "1"
      (.object [("id", .string "1"), ("approved", .bool true)]) after rfl left with
    same | ⟨updates, -⟩
  · exact same
  · cases updates

/-- An update with an empty object takes the approval of a post away, and a patch changes it
where the review says so; the caller may not write it either way. -/
theorem update_drops_unwritable_field :
    ∃ model e, Model.ofJson (reviewedBy fun _ => .object [("approved", .bool false)]) {} posts =
        .ok model ∧ e ∈ model.values ∧
      e.handlers .put = [⟨"update", Crud.update.handler⟩] ∧
      e.handlers .patch = [⟨"patch", Crud.patch.handler⟩] ∧
      (∀ m auth, m.isRead = false → "approved" ∈ denied e m auth) ∧
      let approval (s : Store) := (s.readOne "posts" "1").map (Json.member? "approved")
      let after (m : HttpMethod) := (dispatch (fun _ => .ok {}) true e (rewriting m) posted).2
      approval posted = some (some (.bool true)) ∧
        approval (after .put) = some none ∧
        approval (after .patch) = some (some (.bool false)) := by
  refine ⟨_, _, rfl, List.mem_cons_of_mem _ List.mem_cons_self, rfl, rfl, ?_, rfl, ?_, ?_⟩
  · intro m auth writes
    cases m with
    | get | head | options => cases writes
    | post | put | patch | delete => exact List.mem_cons_self
  · decide +kernel
  · decide +kernel

end Serving

end EndpointTree
