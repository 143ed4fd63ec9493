import EndpointTree.Channel.Observe
import EndpointTree.Proofs.Pairs
import EndpointTree.Proofs.Serving.FieldBoundary
import Mathlib.Data.List.Forall2

/-!
# What a reply tells of a denied field

Two stores that differ in one field only make the same reply to a caller who is denied
that field, as far as the field does not decide which records are listed. Redaction comes
last and takes the field out of what was found. A filter comes first: it compares any
field that the query names, denied or not, and the count and the choice of the records
that pass tell what it found.

* `Store.SameBut` relates stores that differ in one member of their records.
* `Serving.reads_hide_denied_field`: the replies are the same where the filters are not
  on the field, or find the same.
* `Serving.filter_reveals_denied_field`: where they are, the replies may differ.
-/

namespace EndpointTree

/-! ## Values but for one member -/

namespace Json

/-- A value without one member; only objects have any. -/
def without (name : String) : Json → Json
  | .object members => .object (eraseMember name members)
  | other => other

/-- Without one field, all other fields are what they were. -/
theorem member?_without {name key : String} (other : key ≠ name) (v : Json) :
    (v.without name).member? key = v.member? key := by
  cases v with
  | object members =>
    rw [without, member?, member?, eraseMember, Dict.lookup_filter_ne, if_neg other]
  | null | bool | number | string | array => rfl

/-- Values that are the same but for one member have the same other members. -/
theorem member?_eq_of_without_eq {name key : String} {v w : Json} (other : key ≠ name)
    (same : v.without name = w.without name) : v.member? key = w.member? key := by
  rw [← member?_without other v, same, member?_without other w]

end Json

namespace Redaction

variable {denied : List String} {name : String}

theorem deletesMembers_eraseMember (gone : name ∈ denied) (members : List (String × Json)) :
    DeletesMembers denied members (Json.eraseMember name members) := by
  induction members with
  | nil => exact .nil
  | cons m rest ih =>
    obtain ⟨key, value⟩ := m
    by_cases here : key = name
    · subst here
      rw [Json.eraseMember, List.filter_cons_of_neg (by simp)]
      exact .drop gone ih
    · rw [Json.eraseMember, List.filter_cons_of_pos (by simpa using here)]
      exact .keep _ ih

/-- To leave out a denied field is to delete it. -/
theorem deletes_without (gone : name ∈ denied) (v : Json) :
    Deletes denied v (v.without name) := by
  cases v with
  | object members => exact .object (deletesMembers_eraseMember gone members)
  | null | bool | number | string | array => exact .same _

/-- Values that are the same but for a denied member are stripped to the same. -/
theorem strip_eq_of_without_eq {v w : Json} (gone : name ∈ denied)
    (same : v.without name = w.without name) : strip denied v = strip denied w := by
  rw [(deletes_without gone v).strip_eq, same, ← (deletes_without gone w).strip_eq]

theorem stripItems_congr {xs ys : List Json}
    (alike : List.Forall₂ (fun x y => strip denied x = strip denied y) xs ys) :
    stripItems denied xs = stripItems denied ys := by
  induction alike with
  | nil => rfl
  | cons first _ ih => rw [stripItems, stripItems, first, ih]

/-- Pages of documents that are stripped alike are stripped alike. -/
theorem strip_page {documents documents' : List Json} {count : Nat} {cursor : Option String}
    (alike : List.Forall₂ (fun x y => strip denied x = strip denied y) documents documents') :
    strip denied (Page.toJson ⟨documents, count, cursor⟩) =
      strip denied (Page.toJson ⟨documents', count, cursor⟩) := by
  have members (rest : List (String × Json)) :
      stripMembers denied (("documents", .array documents) :: rest) =
        stripMembers denied (("documents", .array documents') :: rest) := by
    rw [stripMembers_documents, stripMembers_documents, stripItems_congr alike]
  rw [Page.toJson, Page.toJson, strip, strip]
  exact congrArg Json.object (members _)

end Redaction

/-! ## Reading stores that differ in one member -/

/-- What a query asks about one member comes out alike for two records. -/
def Query.Alike (q : Query) (name : String) (r r' : Json) : Prop :=
  ∀ expected, q.filter.get? name = some expected →
    memberMatches r name expected = memberMatches r' name expected

/-- A filter on other fields does not see the field. -/
theorem Query.accepts_eq {q : Query} {name : String} {r r' : Json}
    (same : r.without name = r'.without name) (alike : q.Alike name r r') :
    q.accepts r = q.accepts r' := by
  have entries : ∀ key expected, (key, expected) ∈ q.filter.toList →
      memberMatches r key expected = memberMatches r' key expected := by
    intro key expected member
    by_cases here : key = name
    · subst here
      exact alike expected (Dict.get?_of_mem member)
    · rw [memberMatches, memberMatches, Json.member?_eq_of_without_eq here same]
  rw [accepts, accepts, Bool.eq_iff_iff, List.all_eq_true, List.all_eq_true]
  refine forall₂_congr fun entry member => ?_
  obtain ⟨key, expected⟩ := entry
  exact Eq.to_iff (congrArg (· = true) (entries key expected member))

namespace Store

variable {denied : List String} {name : String} {s s' : Store} {q : Query}

/-- Two stores have the same records in the same order, but for one member of them. -/
def SameBut (name : String) (s s' : Store) : Prop :=
  ∀ collection, List.Forall₂ (fun r r' => r.without name = r'.without name)
    (s.records collection) (s'.records collection)

/-- If the filters find the same, the pages are the same but for what is stripped. -/
theorem readMany_alike (gone : name ∈ denied) (same : SameBut name s s') (collection : String)
    (alike : List.Forall₂ (q.Alike name) (s.records collection) (s'.records collection)) :
    (s.readMany collection q).map (fun p => Redaction.strip denied p.toJson) =
      (s'.readMany collection q).map (fun p => Redaction.strip denied p.toJson) := by
  have pairs : List.Forall₂ (fun r r' => r.without name = r'.without name ∧ q.Alike name r r')
      (s.records collection) (s'.records collection) := by
    obtain ⟨length, records⟩ := List.forall₂_iff_zip.mp (same collection)
    refine List.forall₂_iff_zip.mpr ⟨length, fun pair => ⟨records pair, ?_⟩⟩
    exact (List.forall₂_iff_zip.mp alike).2 pair
  -- A filter keeps both records of a pair or neither, so counts and pages stay in step.
  have found := List.rel_filter
    (fun _ _ both => Eq.to_iff (congrArg (· = true) (Query.accepts_eq both.1 both.2))) pairs
  have counts := found.length_eq
  rw [readMany, readMany]
  cases q.offset with
  | error fault => rfl
  | ok offset =>
    have listed := List.forall₂_take (q.limit.getD ((s.records collection).filter q.accepts).length)
      (List.forall₂_drop offset found)
    have lengths := listed.length_eq
    simp only [Except.map, ← counts, ← lengths, Except.ok.injEq]
    exact Redaction.strip_page
      (listed.imp fun r r' both => Redaction.strip_eq_of_without_eq gone both.1)

/-- Records found under one identifier are alike, unless the field is that identifier. -/
theorem find?_hasId_alike {records records' : List Json} (gone : name ∈ denied)
    (kept : name ≠ "id")
    (same : List.Forall₂ (fun r r' => r.without name = r'.without name) records records')
    (id : String) :
    (records.find? (hasId id)).map (Redaction.strip denied) =
      (records'.find? (hasId id)).map (Redaction.strip denied) := by
  induction same with
  | nil => rfl
  | @cons r r' rest rest' first _ ih =>
    have ids : hasId id r = hasId id r' := by
      rw [hasId, hasId, recordId?, recordId?, Json.member?_eq_of_without_eq kept.symm first]
    rw [List.find?_cons, List.find?_cons, ← ids]
    cases hasId id r with
    | true => exact congrArg some (Redaction.strip_eq_of_without_eq gone first)
    | false => exact ih

end Store

/-! ## Steps and replies -/

/-- What a step ended with, less the denied members. -/
def Step.stripped (denied : List String) : Step Json → Step Json
  | .proceed value => .proceed (Redaction.strip denied value)
  | .stop early => .stop early
  | .fail fault => .fail fault
  | .panic => .panic

namespace Crud

variable {denied : List String} {name : String} {op : Crud} {x : Exchange}

/-- An operation that reads leaves the exchange as it is. -/
theorem handler_reads {data : Json} (reads : op = .readOne ∨ op = .readMany) :
    (op.handler data x).2 = x := by
  rw [handler]
  cases x.collection with
  | none => rfl
  | some collection =>
    rcases reads with rfl | rfl
    · simp only [perform, onRecord]
      cases x.params.get? idParam <;> rfl
    · simp only [perform]
      cases Query.ofParams x.query <;> rfl

/-- Replies with one record are alike where the records are. -/
theorem stripped_finishFound {found found' : Option Json}
    (alike : found.map (Redaction.strip denied) = found'.map (Redaction.strip denied)) :
    (finishFound (.ok found)).stripped denied = (finishFound (.ok found')).stripped denied := by
  cases found with
  | none =>
    cases found' with
    | none => rfl
    | some record => cases alike
  | some record =>
    cases found' with
    | none => cases alike
    | some record' => exact congrArg Step.proceed (Option.some.inj alike)

theorem stripped_finish_page {result result' : Except StoreFault Page}
    (alike : result.map (fun p => Redaction.strip denied p.toJson) =
      result'.map (fun p => Redaction.strip denied p.toJson)) :
    (finish (result.map Page.toJson)).stripped denied =
      (finish (result'.map Page.toJson)).stripped denied := by
  cases result with
  | error fault =>
    cases result' with
    | error fault' =>
      cases alike
      rfl
    | ok page => cases alike
  | ok page =>
    cases result' with
    | error fault => cases alike
    | ok page' => exact congrArg Step.proceed (Except.ok.inj alike)

/-- Reading from stores that differ in a denied member comes to the same when it is gone,
unless a filter tells the stores apart. -/
theorem handler_alike {store' : Store} (data : Json) (reads : op = .readOne ∨ op = .readMany)
    (gone : name ∈ denied) (kept : name ≠ "id") (same : Store.SameBut name x.store store')
    (alike : ∀ collection q, x.collection = some collection → op = .readMany →
      Query.ofParams x.query = .ok q →
      List.Forall₂ (q.Alike name) (x.store.records collection) (store'.records collection)) :
    (op.handler data x).1.stripped denied =
      (op.handler data { x with store := store' }).1.stripped denied := by
  rw [handler, handler]
  cases bound : x.collection with
  | none => rfl
  | some collection =>
    rcases reads with rfl | rfl
    · simp only [perform, onRecord]
      cases x.params.get? idParam with
      | none => rfl
      | some id => exact stripped_finishFound (Store.find?_hasId_alike gone kept (same _) id)
    · simp only [perform]
      cases read : Query.ofParams x.query with
      | error fault => rfl
      | ok q =>
        exact stripped_finish_page
          (Store.readMany_alike gone same collection (alike collection q bound rfl read))

end Crud

namespace Serving

variable {e : Endpoint} {m : HttpMethod}

/-- The reply to what the only step of a chain ended with. -/
def replyTo (status : Nat) : Step Json → Http.Reply
  | .proceed value => .ofData status value
  | .stop early => .ofStop early
  | .fail _ | .panic => .ofStop .internal

/-- A chain of one step that leaves the exchange alone replies with what the step ended
with, less what the caller may not read. -/
theorem conclude_single {step : NamedHandler} {data : Json} {x : Exchange} (reads : m.isRead = true)
    (left : (step.run data x).2 = x) :
    conclude e m (Chain.run [step] data x) =
      replyTo (x.status.getD 200) ((step.run data x).1.stripped (denied e m x.auth)) := by
  rw [Chain.run]
  cases ran : step.run data x with
  | mk outcome y =>
    rw [ran] at left
    obtain rfl : y = x := left
    cases outcome with
    | proceed value =>
      simp only [Chain.run, conclude, cleanOutput, reads, if_true, Redaction.redact]
      rfl
    | stop | fail | panic => rfl

/-! ## Notes with secrets -/

/-- Notes that anyone may list, with a secret that nobody may read. -/
def notes : Json :=
  .object [("collection", .string "notes"),
    ("auth", .object [("read", .bool true), ("fields", .object [("secret", .bool false)])]),
    ("handlers", .object [("GET", .string "readMany")])]

/-- A note with a secret. -/
def note (secret : String) : Json := .object [("id", .string "1"), ("secret", .string secret)]

/-- The store in which one note has been created. -/
def noted (secret : String) : Store := ((Store.new Nat.repr).create "notes" (note secret)).2

theorem records_noted (secret collection : String) :
    (noted secret).records collection = if collection = "notes" then [note secret] else [] := by
  have held : (noted secret).collections = Dict.empty.insert "notes" [note secret] := rfl
  rw [Store.records, held, Dict.get?_insert]
  split <;> rfl

theorem noted_sameBut (secret secret' : String) :
    Store.SameBut "secret" (noted secret) (noted secret') := by
  intro collection
  rw [records_noted, records_noted]
  split
  · exact .cons rfl .nil
  · exact .nil

/-! ## What a caller can tell -/

/-- A caller who is denied a field cannot tell two stores apart that differ in it only,
whatever path, query and headers come with the call, where the chain is a storage
operation that reads: one that reads a single record, or one that lists records and whose
filter on that field, if the query has one, finds the same in both. -/
theorem reads_hide_denied_field {verifier : Verifier} {crossOrigin : Bool} {e : Endpoint}
    {call : Call} {m : HttpMethod} {op : Crud} {step field : String} {s s' : Store}
    (called : call.method = m.name) (reads : m.isRead = true)
    (chain : e.chain m = [⟨step, op.handler⟩]) (operation : op = .readOne ∨ op = .readMany)
    (kept : field ≠ "id")
    (gone : ∀ auth, Gate.authorize verifier e.access (gateRequest e m call) = .authorized auth →
      field ∈ denied e m auth)
    (same : Store.SameBut field s s')
    (alike : ∀ collection q, e.collection = some collection → op = .readMany →
      Query.ofParams call.query = .ok q →
      List.Forall₂ (q.Alike field) (s.records collection) (s'.records collection)) :
    (dispatch verifier crossOrigin e call s).1 = (dispatch verifier crossOrigin e call s').1 := by
  rw [dispatch, dispatch]
  cases planned : plan verifier crossOrigin e call with
  | answer reply => rfl
  | run m' auth input =>
    obtain ⟨named, -, authorized⟩ := exists_of_plan_eq_run planned
    obtain rfl : m' = m := HttpMethod.name_injective (named.symm.trans called)
    have shown := Crud.handler_alike (x := exchange e m' call auth s) (cleanInput e m' auth input)
      operation (gone auth authorized) kept same alike
    rw [perform, perform, runChain, runChain, chain]
    dsimp only
    rw [conclude_single reads (Crud.handler_reads operation),
      conclude_single reads (Crud.handler_reads operation)]
    exact congrArg (replyTo _) shown

theorem unfiltered_notes_hide_secrets :
    ∃ model e, Model.ofJson .builtins {} notes = .ok model ∧ e ∈ model.values ∧
      (dispatch (fun _ => .ok {}) true e { method := "GET" } (noted "a")).1 =
        (dispatch (fun _ => .ok {}) true e { method := "GET" } (noted "b")).1 := by
  obtain ⟨model, e, accepted, member, chain, gone⟩ :
      ∃ model e, Model.ofJson .builtins {} notes = .ok model ∧ e ∈ model.values ∧
        e.chain .get = [⟨"readMany", Crud.readMany.handler⟩] ∧
        ∀ auth, "secret" ∈ denied e .get auth :=
    ⟨_, _, rfl, List.mem_cons_self, rfl, fun _ => List.mem_cons_self⟩
  refine ⟨model, e, accepted, member, ?_⟩
  refine reads_hide_denied_field (m := .get) rfl rfl chain (.inr rfl) (by decide)
    (fun auth _ => gone auth) (noted_sameBut "a" "b") ?_
  intro collection q _ _ read
  cases read
  rw [records_noted, records_noted]
  split
  · exact .cons (fun expected asked => nomatch asked) .nil
  · exact .nil

/-- The secret of a note decides whether a filter on it finds the note, and the reply tells. -/
theorem filter_reveals_denied_field :
    ∃ model e auth, Model.ofJson .builtins {} notes = .ok model ∧ e ∈ model.values ∧
      e.chain .get = [⟨"readMany", Crud.readMany.handler⟩] ∧
      let call : Call := { method := "GET", query := Dict.empty.insert "secret" "a" }
      Gate.authorize (fun _ => .ok {}) e.access (gateRequest e .get call) = .authorized auth ∧
        "secret" ∈ denied e .get auth ∧ Store.SameBut "secret" (noted "a") (noted "b") ∧
        (dispatch (fun _ => .ok {}) true e call (noted "a")).1 ≠
          (dispatch (fun _ => .ok {}) true e call (noted "b")).1 := by
  refine ⟨_, _, .anonymous, rfl, List.mem_cons_self, rfl, ?_, List.mem_cons_self,
    noted_sameBut "a" "b", ?_⟩
  · rfl
  · decide +kernel

end Serving

end EndpointTree
