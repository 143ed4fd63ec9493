import EndpointTree.Proofs.Endpoint.CorsSections
import EndpointTree.Proofs.Endpoint.Handlers

/-!
# What endpoints inherit

Two things pass from parent to child setting by setting: the six cross-origin settings and the
collection. Each is that of the nearest declaration on the way to the root that sets it, and a
cross-origin setting that none of them sets is that of the defaults. What a declaration leaves
open, be it missing or `null`, it does not change, and nothing hangs on what stands beside or
below an endpoint.

* `Declaration.nearestSetting?` is the value of the nearest declaration in a lineage.
* `CorsOptions.value_overlay`: a declaration decides the settings that it sets, and no others.
* `Endpoint.compile_shared` and `Endpoint.compile_shared_at_branches` are the statements for
  trees and for documents.
-/

namespace EndpointTree

open Declaration (Cors Source)
open Declaration.Cors (Setting)

/-! ## What a lineage says -/

namespace Declaration

/-- What an endpoint itself declares for a setting. -/
def setting? (d : Declaration) (s : Setting) : Option s.Value := d.cors.bind (·.value? s)

/-- The value of the nearest declaration in a lineage that sets a setting. -/
def nearestSetting? (s : Setting) (lineage : List Declaration) : Option s.Value :=
  lineage.findSome? (·.setting? s)

/-- The collection of the nearest declaration in a lineage that has one. -/
def nearestCollection? (lineage : List Declaration) : Option String :=
  lineage.findSome? (·.collection)

theorem nearestSetting?_cons (s : Setting) (d : Declaration) (above : List Declaration) :
    nearestSetting? s (d :: above) = (d.setting? s).or (nearestSetting? s above) := by
  rw [nearestSetting?, List.findSome?_cons, ← nearestSetting?]
  cases d.setting? s <;> rfl

theorem nearestCollection?_cons (d : Declaration) (above : List Declaration) :
    nearestCollection? (d :: above) = d.collection.or (nearestCollection? above) := by
  rw [nearestCollection?, List.findSome?_cons, ← nearestCollection?]
  cases d.collection <;> rfl

/-- What the declarations of a lineage say about what is inherited. -/
def inheritable (lineage : List Declaration) : List (Option Cors × Option String) :=
  lineage.map fun d => (d.cors, d.collection)

/-- The nearest setting is the first one up the lineage. -/
theorem nearestSetting?_eq (s : Setting) (lineage : List Declaration) :
    nearestSetting? s lineage = (inheritable lineage).findSome? fun p => p.1.bind (·.value? s) := by
  rw [inheritable, List.findSome?_map]
  rfl

/-- The nearest collection is the first one up the lineage. -/
theorem nearestCollection?_eq (lineage : List Declaration) :
    nearestCollection? lineage = (inheritable lineage).findSome? fun p => p.2 := by
  rw [inheritable, List.findSome?_map]
  rfl

end Declaration

namespace CorsOptions

def value (c : CorsOptions) : (s : Setting) → s.Value
  | .origin => c.origin
  | .methods => c.methods
  | .allowedHeaders => c.allowedHeaders
  | .exposedHeaders => c.exposedHeaders
  | .credentials => c.credentials
  | .maxAge => c.maxAge

/-- Settings are determined by their six values. -/
theorem ext_value {c c' : CorsOptions} (same : ∀ s, c.value s = c'.value s) : c = c' := by
  obtain ⟨origin, methods, allowedHeaders, exposedHeaders, credentials, maxAge⟩ := c
  obtain rfl : origin = c'.origin := same .origin
  obtain rfl : methods = c'.methods := same .methods
  obtain rfl : allowedHeaders = c'.allowedHeaders := same .allowedHeaders
  obtain rfl : exposedHeaders = c'.exposedHeaders := same .exposedHeaders
  obtain rfl : credentials = c'.credentials := same .credentials
  obtain rfl : maxAge = c'.maxAge := same .maxAge
  rfl

/-- A declaration decides the settings that it makes something of, and no others. -/
theorem value_overlay (parent : CorsOptions) (c : Cors) (s : Setting) :
    (parent.overlay c).value s = (c.value? s).getD (parent.value s) := by
  cases s with
  | origin | methods | exposedHeaders | credentials => rfl
  | allowedHeaders =>
    rw [value, value, overlay, Cors.value?]
    cases c.allowedHeaders <;> rfl
  | maxAge =>
    rw [value, value, overlay, Cors.value?]
    cases c.maxAge <;> rfl

end CorsOptions

/-! ## Lineages -/

namespace Endpoint

open Declaration (inheritable nearestCollection? nearestSetting? pathOf?)

variable {registry : Registry} {defaults : CorsOptions} {above : Inherited} {d : Declaration}
  {e : Endpoint}

/-- A setting is what the endpoint declares, or else what it inherits. -/
theorem Compiled.value_cors (compiled : Compiled registry above d e) (s : Setting) :
    e.cors.value s = (d.setting? s).getD (above.cors.value s) := by
  rw [compiled.cors, Declaration.setting?]
  cases d.cors with
  | none => rfl
  | some c => exact CorsOptions.value_overlay above.cors c s

/-- What an endpoint has of what is inherited, given the declarations from it up to the root and
the endpoints above it. -/
structure SharedBy (defaults : CorsOptions) (ds : List Declaration) (e : Endpoint)
    (above : List Endpoint) : Prop where
  path : pathOf? ds = some e.path
  cors : ∀ s, e.cors.value s = (nearestSetting? s ds).getD (defaults.value s)
  collection : e.collection = nearestCollection? ds
  /-- What its own declaration leaves open is as it is above. -/
  kept : ∀ s, ds.head?.bind (·.setting? s) = none →
    e.cors.value s = ((above.head?.map (·.cors)).getD defaults).value s

/-- Where lineages say the same about it, what is inherited is the same. -/
theorem SharedBy.congr {ds ds' : List Declaration} {e' : Endpoint} {es es' : List Endpoint}
    (shared : SharedBy defaults ds e es) (shared' : SharedBy defaults ds' e' es')
    (same : inheritable ds = inheritable ds') :
    e.cors = e'.cors ∧ e.collection = e'.collection := by
  constructor
  · apply CorsOptions.ext_value
    intro s
    rw [shared.cors, shared'.cors, Declaration.nearestSetting?_eq, same,
      ← Declaration.nearestSetting?_eq]
  · rw [shared.collection, shared'.collection, Declaration.nearestCollection?_eq, same,
      ← Declaration.nearestCollection?_eq]

/-- An endpoint with those above it has what its lineage shares. -/
inductive Shares (defaults : CorsOptions) (ds : List Declaration) : List Endpoint → Prop
  | intro {e : Endpoint} {above : List Endpoint} :
    SharedBy defaults ds e above → Shares defaults ds (e :: above)

/-- What is passed on from endpoints is what their lineage shares. -/
structure PassesShared (defaults : CorsOptions) (above : Inherited) (ds : List Declaration)
    (es : List Endpoint) : Prop where
  path : pathOf? ds = above.path
  cors : ∀ s, above.cors.value s = (nearestSetting? s ds).getD (defaults.value s)
  collection : above.collection = nearestCollection? ds
  nearest : above.cors = (es.head?.map (·.cors)).getD defaults

theorem SharedBy.passesShared {ds : List Declaration} {es : List Endpoint}
    (shared : SharedBy defaults ds e es) : PassesShared defaults e.passOn ds (e :: es) :=
  ⟨shared.path, shared.cors, shared.collection, rfl⟩

/-- One endpoint decides what it declares, and takes the rest as it comes. -/
theorem Compiled.sharedBy {ds : List Declaration} {es : List Endpoint}
    (compiled : Compiled registry above d e) (passes : PassesShared defaults above ds es) :
    SharedBy defaults (d :: ds) e es := by
  refine ⟨compiled.pathOf?_eq passes.path, fun s => ?_, ?_, fun s unset => ?_⟩
  · rw [compiled.value_cors, passes.cors, Declaration.nearestSetting?_cons, Option.getD_or]
  · rw [compiled.collection, passes.collection, Declaration.nearestCollection?_cons]
    cases d.collection <;> rfl
  · rw [List.head?_cons, Option.bind_some] at unset
    rw [compiled.value_cors, unset, Option.getD_none, passes.nearest]

variable {tree : Tree Declaration} {model : Model}

/-- Every endpoint of a model has what its lineage shares. -/
theorem compile_shared (compiled : compile registry (.root defaults) tree = .ok model) :
    List.Forall₂ (Shares defaults) (tree.lineages []) (model.lineages []) := by
  refine compile_lineages (PassesShared defaults) (fun {above ds es d e} passes step => ?_)
    ⟨rfl, fun _ => rfl, rfl, rfl⟩ compiled
  have here := step.sharedBy passes
  exact ⟨.intro here, here.passesShared⟩

end Endpoint

/-! ## Documents -/

namespace Declaration

/-- What stands under `cors` at an endpoint. -/
def Source.cors? (s : Source) : Option Json := lastUnder? "cors" s.members

/-- What stands under `collection` at an endpoint. -/
def Source.collection? (s : Source) : Option Json := lastUnder? "collection" s.members

/-- The value that an endpoint gives a cross-origin setting. -/
def Source.given? (source : Source) (s : Setting) : Option Json := source.cors?.bind (Cors.given? s)

/-- The sections that one setting declares. -/
theorem put_shared {path key : String} {value : Json} {d d' : Declaration}
    (read : put path key value d = .ok d') :
    d'.cors.map Except.ok =
        (if key = "cors" then some (Cors.ofJson value) else d.cors.map Except.ok) ∧
      d'.collection.map Json.string =
        (if key = "collection" then some value else d.collection.map Json.string) := by
  unfold put at read
  split at read
  · next auth =>
    cases read
    simp [auth]
  split at read
  · next cors =>
    split at read
    · next c corsEq =>
      cases read
      simp [cors, corsEq]
    · cases read
  split at read
  · next handlers =>
    obtain ⟨lists, -, rfl⟩ := exists_of_map_eq_ok read
    simp [handlers]
  split at read
  · next filters =>
    obtain ⟨lists, -, rfl⟩ := exists_of_map_eq_ok read
    simp [filters]
  split at read
  · next realTime =>
    obtain ⟨channel, -, rfl⟩ := exists_of_map_eq_ok read
    simp [realTime]
  split at read
  · next collection =>
    split at read
    · cases read
      simp [collection]
    · cases read
  · next cors _ _ _ collection =>
    cases read
    exact ⟨(if_neg cors).symm, (if_neg collection).symm⟩

variable {source : Source} {d : Declaration}

theorem ReadFrom.cors (read : ReadFrom source d) :
    d.cors.map Except.ok = source.cors?.map Cors.ofJson := by
  have settled := read.settled (by decide) (fun put => (put_shared put).1) fun _ => rfl
  rw [settled, Source.cors?]
  cases lastUnder? "cors" source.members <;> rfl

theorem ReadFrom.collection (read : ReadFrom source d) :
    d.collection.map Json.string = source.collection? := by
  have settled := read.settled (by decide) (fun put => (put_shared put).2) fun _ => rfl
  rw [settled, Source.collection?]
  cases lastUnder? "collection" source.members <;> rfl

/-- A setting that is read is what the source gives for it. -/
theorem ReadFrom.given? (read : ReadFrom source d) (s : Setting) :
    Option.Rel s.Means (source.given? s) (d.setting? s) := by
  have same := read.cors
  rw [Source.given?, setting?]
  cases section_ : source.cors? with
  | none =>
    rw [section_, Option.map_none, Option.map_eq_none_iff] at same
    rw [same]
    exact .none
  | some cors =>
    rw [section_, Option.map_some] at same
    obtain ⟨c, declared, parsed⟩ := Option.map_eq_some_iff.mp same
    rw [declared]
    exact Cors.ofJson_given parsed.symm s

end Declaration

namespace Endpoint

open Declaration (inheritable)

variable {registry : Registry} {defaults : CorsOptions} {tree : Tree Declaration} {model : Model}

/-- The value of a setting, given the default and what the nearest section has that sets it. -/
inductive Resolves {s : Setting} (default : s.Value) : Option Json → s.Value → Prop
  | unset : Resolves default none default
  | given {value : Json} {v : s.Value} : s.Means value v → Resolves default (some value) v

/-- What is declared resolves what is given, and the default resolves nothing given. -/
theorem resolves_getD {s : Setting} (default : s.Value) {given? : Option Json}
    {declared? : Option s.Value} (means : Option.Rel s.Means given? declared?) :
    Resolves default given? (declared?.getD default) := by
  cases means with
  | some holds => exact .given holds
  | none => exact .unset

/-- What an endpoint has of what is inherited, read off its branch of the document. -/
structure SharedAt (defaults : CorsOptions) (branch : List Source) (e : Endpoint) : Prop where
  path : branch.head?.map (·.path) = some e.path
  cors : ∀ s, Resolves (defaults.value s) (branch.findSome? (·.given? s)) (e.cors.value s)
  collection : branch.findSome? (·.collection?) = e.collection.map .string

/-- What is shared down a lineage follows the sources of its branch. -/
theorem SharedBy.sharedAt {branch : List Source} {ds : List Declaration} {e : Endpoint}
    {above : List Endpoint} (lineal : Declaration.Lineal branch ds)
    (shared : SharedBy defaults ds e above) : SharedAt defaults branch e := by
  refine ⟨lineal.path.trans shared.path, fun s => ?_, ?_⟩
  · rw [shared.cors]
    exact resolves_getD _ (rel_findSome? (fun read => read.given? s) lineal.readFrom)
  · have named : Option.Rel (fun value name => value = Json.string name)
        (branch.findSome? (·.collection?)) (ds.findSome? (·.collection)) := by
      refine rel_findSome? (fun {source d} read => ?_) lineal.readFrom
      rw [← read.collection]
      cases d.collection with
      | none => exact .none
      | some name => exact .some rfl
    rw [shared.collection, Declaration.nearestCollection?]
    generalize branch.findSome? _ = value?, ds.findSome? _ = name? at named ⊢
    cases named with
    | none => rfl
    | some same => exact congrArg some same

/-- The same read off the document that declares the tree. -/
theorem compile_shared_at_branches {raw : Json} (read : Declaration.ofJson "/" "" raw = .ok tree)
    (compiled : compile registry (.root defaults) tree = .ok model) :
    List.Forall₂ (SharedAt defaults) (Declaration.branches "/" [] raw) model.values := by
  have each : List.Forall₂
      (fun branch es => ∃ e, List.head? es = some e ∧ SharedAt defaults branch e)
      (Declaration.branches "/" [] raw) (model.lineages []) :=
    forall₂_comp (fun {branch ds es} lineal shares => by
        cases shares with
        | @intro e above shared => exact ⟨e, rfl, shared.sharedAt lineal⟩)
      (Declaration.ofJson_branches read) (compile_shared compiled)
  exact (Tree.forall₂_values each.flip).flip

/-- In every tree that compiles, an endpoint has for each of the six cross-origin settings what
the nearest declaration on its way to the root makes of it that sets it, whatever that one says
about the others, and the default where none does; and it has the collection of the nearest
endpoint that declares one. A setting that its own declaration leaves open is as it is above
it. So neither what stands beside an endpoint nor what stands below it counts: two endpoints
whose lineages declare the same have the same. In a document a setting is open where it is
missing or `null`; `true` and a single star let in every origin, `false` lets in none, and a
single origin stands for a list of it. -/
theorem shared_settings_follow_nearest_declarations
    (compiled : compile registry (.root defaults) tree = .ok model) :
    List.Forall₂ (Shares defaults) (tree.lineages []) (model.lineages []) ∧
      (∀ raw, Declaration.ofJson "/" "" raw = .ok tree →
        List.Forall₂ (SharedAt defaults) (Declaration.branches "/" [] raw) model.values) ∧
      ∀ registry' tree' model', compile registry' (.root defaults) tree' = .ok model' →
        ∀ ds e es ds' e' es', (ds, e :: es) ∈ (tree.lineages []).zip (model.lineages []) →
          (ds', e' :: es') ∈ (tree'.lineages []).zip (model'.lineages []) →
          inheritable ds = inheritable ds' → e.cors = e'.cors ∧ e.collection = e'.collection := by
  refine ⟨compile_shared compiled, fun raw read => compile_shared_at_branches read compiled, ?_⟩
  intro registry' tree' model' compiled' ds e es ds' e' es' member member' same
  have shares := (List.forall₂_iff_zip.mp (compile_shared compiled)).2 member
  have shares' := (List.forall₂_iff_zip.mp (compile_shared compiled')).2 member'
  cases shares with
  | intro shared =>
    cases shares' with
    | intro shared' => exact shared.congr shared' same

/-- A star over a list of origins, and a list of settings that leaves four of them open. -/
theorem nested_sections_resolve_setting_by_setting :
    let inner : Json := .object [("collection", .string "drafts"),
      ("cors", .array [.null, .array [.string "GET"], .null, .array [], .null, .null])]
    let middle : Json := .object
      [("cors", .object [("origin", .string "*"), ("credentials", .null)]), ("/inner", inner)]
    let raw : Json := .object [("collection", .string "notes"), ("cors", .object
      [("origin", .array [.string "https://a.example"]), ("credentials", .bool true)]),
      ("/middle", middle)]
    ∃ tree model, Declaration.ofJson "/" "" raw = .ok tree ∧
      compile .empty (.root {}) tree = .ok model ∧
      List.Forall₂ (SharedAt {}) (Declaration.branches "/" [] raw) model.values ∧
      model.values.map (fun e => (e.cors, e.collection)) =
        [({ origin := .list ["https://a.example"], credentials := true }, some "notes"),
          ({ credentials := true }, some "notes"),
          ({ methods := ["GET"], credentials := true }, some "drafts")] := by
  intro inner middle raw
  exact ⟨_, _, rfl, rfl,
    (@shared_settings_follow_nearest_declarations .empty {} _ _ rfl).2.1 _ rfl, rfl⟩

end Endpoint

end EndpointTree
