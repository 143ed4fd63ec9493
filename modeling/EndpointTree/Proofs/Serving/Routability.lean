import EndpointTree.Channel.Observe
import EndpointTree.Proofs.Endpoint.Lineage
import EndpointTree.Proofs.Http.RouteTree
import EndpointTree.Proofs.Pairs
import EndpointTree.Serving.Routes

/-!
# Which models can be routed

Not every model that compiles can be routed. Two endpoints with something to run may have
come to the same path, and cross-origin settings may be of no use: a star that is listed
among origins stands for itself, while a star alone, or one among the configured origins,
stands for any.

* `RouteTable.Holds` is what a table has of the routes that were added to it, and
  `RouteTable.Holds.foldlM` and `RouteTable.Holds.foldlM_isSome` which routes can be added.
* `Application.Servable` is what it takes to route a model.
* `Endpoint.compile_listsStar`: a listed star was declared in a list.
-/

namespace EndpointTree

/-! ## Listed stars -/

/-- A star is listed among origins. -/
def CorsOrigin.ListsStar : CorsOrigin → Prop
  | .any => False
  | .list origins => Http.CrossOrigin.star ∈ origins

instance (c : CorsOrigin) : Decidable c.ListsStar :=
  match c with
  | .any => inferInstanceAs (Decidable False)
  | .list origins => inferInstanceAs (Decidable (Http.CrossOrigin.star ∈ origins))

/-- Settings declare a list of origins with a star. -/
def Declaration.Cors.ListsStar (c : Declaration.Cors) : Prop :=
  ∃ origins, c.origin = some (.many origins) ∧ Http.CrossOrigin.star ∈ origins

namespace CorsOptions

theorem not_listsStar_ofOrigins (origins : List String) :
    ¬ (ofOrigins origins).origin.ListsStar := by
  intro lists
  rw [ofOrigins] at lists
  dsimp only at lists
  split at lists
  · exact lists
  · next named =>
    refine named (Bool.or_eq_true_iff.mpr (.inr ?_))
    exact List.contains_iff_mem.mpr lists

/-- A star that a declaration leaves listed is its own, or was listed above. -/
theorem listsStar_overlay {parent : CorsOptions} {d : Declaration.Cors}
    (lists : (parent.overlay d).origin.ListsStar) : d.ListsStar ∨ parent.origin.ListsStar := by
  rw [overlay] at lists
  dsimp only at lists
  cases declared : d.origin with
  | none =>
    rw [declared] at lists
    exact .inr lists
  | some setting =>
    rw [declared] at lists
    cases setting with
    | flag any => cases any <;> cases lists
    | one origin =>
      rw [Option.map_some, Option.getD_some, resolveOrigin] at lists
      split at lists
      · cases lists
      · next other => exact absurd (List.mem_singleton.mp lists).symm other
    | many origins => exact .inl ⟨origins, declared, lists⟩

end CorsOptions

namespace Http.CrossOrigin

theorem star_mem_validOrigins {origins : List String} :
    (validOrigins origins).contains star = true ↔ star ∈ origins := by
  have valid : isHeaderValue star.toUTF8.toList = true := by decide +kernel
  simp only [List.contains_iff_mem, validOrigins, List.mem_filter, valid, and_true]

/-- Settings are of use unless a star is listed among their origins, or goes with credentials
as the value of one of the other lists. -/
theorem isUsable_iff {c : CorsOptions} :
    isUsable c = true ↔ ¬ c.origin.ListsStar ∧
      (c.credentials = true → methodsValue? c ≠ some star ∧
        (c.allowedHeaders.map validNames).bind listValue? ≠ some star ∧
        exposedValue? c ≠ some star) := by
  cases origin : c.origin with
  | any =>
    simp only [isUsable, origin, CorsOrigin.ListsStar, Bool.not_eq_true', ← Bool.not_eq_true,
      Bool.and_eq_true, Bool.or_eq_true, decide_eq_true_eq, not_and, not_or, or_assoc, ne_eq,
      not_false_eq_true]
  | list origins =>
    simp only [isUsable, origin, CorsOrigin.ListsStar, Bool.not_eq_true', ← Bool.not_eq_true,
      Bool.and_eq_true, Bool.or_eq_true, decide_eq_true_eq, not_and, not_or, or_assoc, ne_eq,
      star_mem_validOrigins]

end Http.CrossOrigin

/-- Where a star is listed among the origins of an endpoint, the endpoint or one above it
declares a list with a star. -/
theorem Endpoint.compile_listsStar {registry : Registry} {origins : List String}
    {tree : Tree Declaration} {model : Model}
    (compiled : compile registry (.root (.ofOrigins origins)) tree = .ok model) :
    List.Forall₂ (fun ds e => e.cors.origin.ListsStar →
        ∃ d ∈ ds, ∃ c, d.cors = some c ∧ c.ListsStar)
      (tree.lineages []) model.values := by
  let listed : List Declaration → Prop := fun ds => ∃ d ∈ ds, ∃ c, d.cors = some c ∧ c.ListsStar
  refine compile_values (fun above ds => above.cors.origin.ListsStar → listed ds)
    (fun {above ds d e} holds step => ?_)
    (fun lists => absurd lists (CorsOptions.not_listsStar_ofOrigins origins)) compiled
  have here : e.cors.origin.ListsStar → listed (d :: ds) := by
    intro lists
    rw [step.cors] at lists
    have inherited : above.cors.origin.ListsStar → listed (d :: ds) := by
      intro lists
      obtain ⟨d', member, declared⟩ := holds lists
      exact ⟨d', List.mem_cons_of_mem _ member, declared⟩
    cases declared : d.cors with
    | none =>
      rw [declared] at lists
      exact inherited lists
    | some c =>
      rw [declared] at lists
      rcases CorsOptions.listsStar_overlay lists with own | lists
      · exact ⟨d, List.mem_cons_self, c, declared, own⟩
      · exact inherited lists
  exact ⟨here, here⟩

namespace Serving

/-! ## Routes -/

open Http (PathPattern)

/-- Routes that can stand in one table: their paths are patterns, those at one path go together
in their order, and those at different paths are not at odds. -/
structure Agreeing (rs : List (String × Destination)) : Prop where
  readable : ∀ r ∈ rs, (PathPattern.ofPath? r.1).isSome = true
  joined : rs.Pairwise fun r s => r.1 = s.1 → (r.2.join? s.2).isSome = true
  apart : ∀ r ∈ rs, ∀ s ∈ rs, r.1 ≠ s.1 →
    ∀ p ∈ PathPattern.ofPath? r.1, ∀ q ∈ PathPattern.ofPath? s.1, p.clashes q = false

instance (rs : List (String × Destination)) : Decidable (Agreeing rs) :=
  decidable_of_iff (_ ∧ _ ∧ _) ⟨fun holds => ⟨holds.1, holds.2.1, holds.2.2⟩,
    fun holds => ⟨holds.readable, holds.joined, holds.apart⟩⟩

/-- Some of the routes that agree do so among themselves. -/
theorem Agreeing.sublist {rs rs' : List (String × Destination)} (agreeing : Agreeing rs)
    (part : rs'.Sublist rs) : Agreeing rs' where
  readable r member := agreeing.readable r (part.subset member)
  joined := agreeing.joined.sublist part
  apart r member s member' := agreeing.apart r (part.subset member) s (part.subset member')

/-- Routes go on to agree if one is added that agrees with each of them. -/
theorem Agreeing.concat {rs : List (String × Destination)} {path : String} {x : Destination}
    {q : PathPattern} (agreeing : Agreeing rs) (read : PathPattern.ofPath? path = some q)
    (joined : ∀ r ∈ rs, r.1 = path → (r.2.join? x).isSome = true)
    (apart : ∀ r ∈ rs, r.1 ≠ path → ∀ p ∈ PathPattern.ofPath? r.1, p.clashes q = false) :
    Agreeing (rs ++ [(path, x)]) where
  readable r member := by
    rcases List.mem_append.mp member with member | member
    · exact agreeing.readable r member
    · rw [List.mem_singleton.mp member]
      exact Option.isSome_of_eq_some read
  joined := by
    refine List.pairwise_append.mpr ⟨agreeing.joined, List.pairwise_singleton _ _, ?_⟩
    intro r member s member' same
    obtain rfl := List.mem_singleton.mp member'
    exact joined r member same
  apart r member s member' other p readR q' readS := by
    rcases List.mem_append.mp member with member | member <;>
      rcases List.mem_append.mp member' with member' | member'
    · exact agreeing.apart r member s member' other p readR q' readS
    · obtain rfl := List.mem_singleton.mp member'
      obtain rfl := Option.some.inj (read.symm.trans readS)
      exact apart r member other p readR
    · obtain rfl := List.mem_singleton.mp member
      obtain rfl := Option.some.inj (read.symm.trans readR)
      rw [PathPattern.clashes_comm]
      exact apart s member' (Ne.symm other) q' readS
    · rw [List.mem_singleton.mp member, List.mem_singleton.mp member'] at other
      exact absurd rfl other

/-- What came together goes together with nothing more. -/
theorem Destination.join?_of_join? {a b c : Destination} (join : a.join? b = some c)
    (y : Destination) : b.join? y = none ∧ c.join? y = none := by
  unfold Destination.join? at join
  split at join <;> cases join
  exact ⟨rfl, rfl⟩

namespace RouteTable

/-- A table has routes: it leads each of their paths to what they lead to together, and its
tree holds the patterns of these paths and no others. -/
structure Holds (table : RouteTable) (rs : List (String × Destination)) : Prop where
  agreeing : Agreeing rs
  sound : table.tree.Sound
  has : ∀ shape, table.tree.Has shape ↔
    ∃ r ∈ rs, ∃ p, PathPattern.ofPath? r.1 = some p ∧ shape = p.shape
  free : ∀ path, table.destinations.lookup path = none ↔ ∀ r ∈ rs, r.1 ≠ path
  joins : ∀ path d, table.destinations.lookup path = some d →
    ∀ x, (d.join? x).isSome = true ↔ ∀ r ∈ rs, r.1 = path → (r.2.join? x).isSome = true

variable {table last : RouteTable} {path : String} {x : Destination}
  {rs more : List (String × Destination)}

theorem Holds.exists_route {d : Destination} (holds : Holds table rs)
    (held : table.destinations.lookup path = some d) : ∃ r ∈ rs, r.1 = path := by
  by_contra absent
  have missing := (holds.free path).mpr fun r member same => absent ⟨r, member, same⟩
  rw [missing] at held
  cases held

theorem holds_empty : Holds {} [] where
  agreeing := ⟨nofun, .nil, nofun⟩
  sound := Http.RouteTree.sound_empty
  has shape := by
    constructor
    · exact fun held => absurd held Http.RouteTree.not_has_empty
    · intro holds
      obtain ⟨r, member, -⟩ := holds
      cases member
  free path := ⟨fun _ => nofun, fun _ => rfl⟩
  joins path d found := by cases found

/-- A destination is put at a path, and the tree comes to hold its pattern if it did not. -/
theorem Holds.put {tree : Http.RouteTree (String × List String)} {d : Destination}
    (holds : Holds table rs) (agreeing : Agreeing (rs ++ [(path, x)])) (sound : tree.Sound)
    (has : ∀ shape, tree.Has shape ↔ table.tree.Has shape ∨
      ∃ p, PathPattern.ofPath? path = some p ∧ shape = p.shape)
    (joins : ∀ y, (d.join? y).isSome = true ↔
      ∀ r ∈ rs ++ [(path, x)], r.1 = path → (r.2.join? y).isSome = true) :
    Holds { destinations := Pairs.put path d table.destinations, tree } (rs ++ [(path, x)]) := by
  refine ⟨agreeing, sound, fun shape => ?_, fun path' => ?_, fun path' d' found y => ?_⟩
  · rw [has, holds.has]
    simp only [List.mem_append, List.mem_singleton, or_and_right, exists_or, exists_eq_left]
  · rw [Pairs.lookup_put, List.forall_mem_append, List.forall_mem_singleton, ← holds.free]
    by_cases here : path' = path
    · simp [here]
    · simp [here, Ne.symm here]
  · rw [Pairs.lookup_put] at found
    by_cases here : path' = path
    · rw [if_pos here] at found
      cases found
      rw [here]
      exact joins y
    · rw [if_neg here] at found
      rw [holds.joins path' d' found, List.forall_mem_append, List.forall_mem_singleton]
      exact (and_iff_left fun same => absurd same.symm here).symm

/-- The step of a run: a route that is added agrees with those in the table. -/
theorem Holds.add? {next : RouteTable} (holds : Holds table rs)
    (added : table.add? path x = some next) : Holds next (rs ++ [(path, x)]) := by
  rw [RouteTable.add?] at added
  split at added
  · next earlier held =>
    obtain ⟨joined, join, added⟩ := Option.bind_eq_some_iff.mp added
    cases added
    obtain ⟨r₀, member₀, rfl⟩ := holds.exists_route held
    obtain ⟨q, read⟩ := Option.isSome_iff_exists.mp (holds.agreeing.readable r₀ member₀)
    have agreeing : Agreeing (rs ++ [(r₀.1, x)]) := by
      refine holds.agreeing.concat read ?_ fun r member other p read' => ?_
      · exact (holds.joins _ earlier held x).mp (Option.isSome_of_eq_some join)
      · exact holds.agreeing.apart r member r₀ member₀ other p read' q read
    refine holds.put agreeing holds.sound (fun shape => ?_) fun y => ?_
    · -- the path has stood in the tree since the route that was there before
      refine (or_iff_left_of_imp fun own => ?_).symm
      obtain ⟨p, read', rfl⟩ := own
      exact (holds.has _).mpr ⟨r₀, member₀, p, read', rfl⟩
    · obtain ⟨closed, closed'⟩ := Destination.join?_of_join? join y
      rw [closed']
      refine ⟨nofun, fun all => ?_⟩
      have own := all _ (List.mem_append_right _ List.mem_cons_self) rfl
      rw [closed] at own
      exact own
  · next missing =>
    obtain ⟨pattern, read, added⟩ := Option.bind_eq_some_iff.mp added
    obtain ⟨tree, inserted, added⟩ := Option.bind_eq_some_iff.mp added
    cases added
    obtain ⟨has, apart, sound⟩ := Http.RouteTree.took_insert? inserted
    have other : ∀ r ∈ rs, r.1 ≠ path := (holds.free path).mp missing
    have agreeing : Agreeing (rs ++ [(path, x)]) := by
      refine holds.agreeing.concat read (fun r member same => absurd same (other r member)) ?_
      intro r member _ p read'
      rw [← PathPattern.clashes_shape_left]
      exact apart holds.sound _ ((holds.has _).mpr ⟨r, member, p, read', rfl⟩)
    refine holds.put agreeing (sound holds.sound) (fun shape => ?_) fun y => ?_
    · rw [has]
      simp only [read, Option.some.injEq, exists_eq_left']
    · rw [List.forall_mem_append, List.forall_mem_singleton]
      exact ⟨fun join => ⟨fun r member same => absurd same (other r member), fun _ => join⟩,
        fun all => all.2 rfl⟩

/-- The run: routes that are all added agree with one another. -/
theorem Holds.foldlM (holds : Holds table rs)
    (added : more.foldlM (fun table (path, x) => table.add? path x) table = some last) :
    Holds last (rs ++ more) := by
  induction more generalizing table rs with
  | nil =>
    cases added
    rwa [List.append_nil]
  | cons r more ih =>
    obtain ⟨next, first, added⟩ := Option.bind_eq_some_iff.mp added
    rw [List.append_cons]
    exact ih (holds.add? first) added

/-- The step of a run, the other way: a route that agrees with those in a table can be added. -/
theorem Holds.add?_isSome (holds : Holds table rs) (agreeing : Agreeing (rs ++ [(path, x)]))
    (placed : ∀ p ∈ PathPattern.ofPath? path, p.Placed) :
    (table.add? path x).isSome = true := by
  have whole : (path, x) ∈ rs ++ [(path, x)] := List.mem_append_right _ List.mem_cons_self
  obtain ⟨-, -, joined⟩ := List.pairwise_append.mp agreeing.joined
  rw [RouteTable.add?]
  split
  · next earlier held =>
    have join : (earlier.join? x).isSome = true :=
      (holds.joins path earlier held x).mpr fun r member => joined r member _ List.mem_cons_self
    obtain ⟨destination, join⟩ := Option.isSome_iff_exists.mp join
    rw [join]
    rfl
  · next missing =>
    obtain ⟨pattern, read⟩ := Option.isSome_iff_exists.mp (agreeing.readable _ whole)
    have free := (holds.free path).mp missing
    have apart : ∀ shape, table.tree.Has shape → shape.clashes pattern = false := by
      intro shape held
      obtain ⟨r, member, p, read', rfl⟩ := (holds.has shape).mp held
      rw [PathPattern.clashes_shape_left]
      exact agreeing.apart r (List.mem_append_left _ member) _ whole (free r member) p
        read' pattern read
    obtain ⟨tree, inserted⟩ := Option.isSome_iff_exists.mp
      (Http.RouteTree.insert?_isSome holds.sound (placed pattern read) apart)
    rw [read]
    change (table.tree.insert? pattern (path, pattern.names) >>= _).isSome = true
    rw [inserted]
    rfl

/-- The run, the other way. -/
theorem Holds.foldlM_isSome (holds : Holds table rs) (agreeing : Agreeing (rs ++ more))
    (placed : ∀ r ∈ more, ∀ p ∈ PathPattern.ofPath? r.1, p.Placed) :
    (more.foldlM (fun (t : RouteTable) (path, x) => t.add? path x) table).isSome = true := by
  induction more generalizing table rs with
  | nil => rfl
  | cons r more ih =>
    obtain ⟨path, x⟩ := r
    obtain ⟨first, further⟩ := List.forall_mem_cons.mp placed
    have start : Agreeing (rs ++ [(path, x)]) :=
      agreeing.sublist ((List.singleton_sublist.mpr List.mem_cons_self).append_left rs)
    obtain ⟨next, added⟩ := Option.isSome_iff_exists.mp (holds.add?_isSome start first)
    rw [List.append_cons] at agreeing
    rw [List.foldlM_cons]
    dsimp only
    rw [added]
    exact ih (holds.add? added) agreeing further

end RouteTable

open Http.CrossOrigin (star methodsValue? validNames listValue? exposedValue?)

namespace Application

variable {app : Application}

/-- What it takes to route an application: where cross-origin headers are served, settings
without a star that is listed among origins or goes with credentials, and routes that can
stand in one table. -/
structure Servable (app : Application) : Prop where
  usable : app.settings.corsEnabled = true → ∀ e ∈ app.served, ¬ e.cors.origin.ListsStar ∧
    (e.cors.credentials = true → methodsValue? e.cors ≠ some star ∧
      (e.cors.allowedHeaders.map validNames).bind listValue? ≠ some star ∧
      exposedValue? e.cors ≠ some star)
  agreeing : Agreeing app.routes

instance (app : Application) : Decidable app.Servable :=
  decidable_of_iff (_ ∧ _) ⟨fun holds => ⟨holds.1, holds.2⟩,
    fun holds => ⟨holds.usable, holds.agreeing⟩⟩

theorem canApply_iff {e : Endpoint} : app.canApply e = true ↔
    (app.settings.corsEnabled = true → ¬ e.cors.origin.ListsStar ∧
      (e.cors.credentials = true → methodsValue? e.cors ≠ some star ∧
        (e.cors.allowedHeaders.map validNames).bind listValue? ≠ some star ∧
        exposedValue? e.cors ≠ some star)) := by
  rw [canApply, Bool.or_eq_true, Bool.not_eq_true', ← Bool.not_eq_true, ← imp_iff_not_or,
    Http.CrossOrigin.isUsable_iff]

/-- An application is routed where its settings can be applied and all its routes be added. -/
theorem routes?_isSome_iff : app.routes?.isSome = true ↔
    (∀ e ∈ app.served, app.canApply e = true) ∧
      ∃ table, app.routes.foldlM (fun (table : RouteTable) (path, x) => table.add? path x) {} =
        some table := by
  rw [routes?]
  split
  · next all => rw [← List.all_eq_true, and_iff_right all, Option.isSome_iff_exists]
  · next unfit => simp [← List.all_eq_true, unfit]

/-- What is routed is servable. -/
theorem servable_of_routes? (routed : app.routes?.isSome = true) : app.Servable := by
  obtain ⟨all, table, added⟩ := routes?_isSome_iff.mp routed
  refine ⟨fun crossOrigin e member => canApply_iff.mp (all e member) crossOrigin, ?_⟩
  exact (RouteTable.holds_empty.foldlM added).agreeing

/-- What is servable is routed, as long as a rest in a path stands behind a slash. -/
theorem Servable.routes?_isSome (servable : app.Servable)
    (placed : ∀ r ∈ app.routes, ∀ p ∈ PathPattern.ofPath? r.1, p.Placed) :
    app.routes?.isSome = true := by
  refine routes?_isSome_iff.mpr ⟨fun e member => canApply_iff.mpr fun crossOrigin =>
    servable.usable crossOrigin e member, Option.isSome_iff_exists.mp ?_⟩
  exact RouteTable.holds_empty.foldlM_isSome servable.agreeing placed

/-- The endpoints of a model that is routed have paths of their own. -/
theorem nodup_of_routes? (routed : app.routes?.isSome = true) :
    (app.served.map Endpoint.path).Nodup := by
  have joined := (servable_of_routes? routed).agreeing.joined
  rw [routes, List.append_assoc] at joined
  have own := List.pairwise_map.mp (List.pairwise_append.mp joined).1
  refine List.pairwise_map.mpr (own.imp ?_)
  intro e e' joins same
  cases joins same

end Application

/-- An accepted model that is routed has usable cross-origin settings, paths that are patterns,
and routes that do not meet, but for an endpoint beside the entrance to the channels; and with
all of this a model is routed, if a rest in a path stands behind a slash (whether another one can
be added depends on the routes before it). A star that is listed among origins stands in a list
that the endpoint or one above it declares: it comes neither from the configured origins nor from
an origin that is declared alone. -/
theorem accepted_models_are_routed_when_servable {settings : Settings}
    {registry : Registry} {verifier : Verifier} {raw : Json} {tree : Tree Declaration}
    {app : Application} (read : Declaration.ofJson "/" "" raw = .ok tree)
    (accepted : Application.ofDocument settings registry verifier raw = .ok app) :
    (app.routes?.isSome = true → app.Servable) ∧
    (app.Servable → (∀ r ∈ app.routes, ∀ p ∈ PathPattern.ofPath? r.1, p.Placed) →
      app.routes?.isSome = true) ∧
    List.Forall₂ (fun ds e => e.cors.origin.ListsStar →
        ∃ d ∈ ds, ∃ c, d.cors = some c ∧ c.ListsStar)
      (tree.lineages []) app.model.values := by
  obtain ⟨model, compiled, made⟩ := exists_of_bind_eq_ok accepted
  cases made
  refine ⟨Application.servable_of_routes?, Application.Servable.routes?_isSome, ?declared⟩
  case declared =>
    rw [Model.ofJson, read] at compiled
    dsimp only at compiled
    cases compiles : Endpoint.compile registry (.root (.ofOrigins settings.corsOrigins)) tree with
    | error fault =>
      rw [compiles] at compiled
      cases compiled
    | ok model' =>
      rw [compiles] at compiled
      cases compiled
      exact Endpoint.compile_listsStar compiles

/-- Notes that anyone may list, with an origin setting. -/
def sharedNotes (origin : Json) : Json :=
  .object [("collection", .string "notes"), ("auth", .bool true),
    ("cors", .object [("origin", origin)]),
    ("handlers", .object [("GET", .string "readMany")])]

/-- The application of these notes under the default settings. -/
def sharedApp (origin : Json) : Except StartFault Application :=
  Application.ofDocument (.ofLookup fun _ => none) .builtins (fun _ => .error .notReadable)
    (sharedNotes origin)

/-- A star that stands alone is routed, and its settings list no star. -/
theorem lone_star_is_routed :
    ∃ tree app, Declaration.ofJson "/" "" (sharedNotes (.string star)) = .ok tree ∧
      sharedApp (.string star) = .ok app ∧ app.Servable ∧ app.routes?.isSome = true := by
  obtain ⟨tree, app, read, accepted⟩ :
      ∃ tree app, Declaration.ofJson "/" "" (sharedNotes (.string star)) = .ok tree ∧
        sharedApp (.string star) = .ok app :=
    ⟨_, _, rfl, rfl⟩
  have fits : (sharedApp (.string star)).toOption.any (fun app => app.Servable ∧
      ∀ r ∈ app.routes, ∀ p ∈ PathPattern.ofPath? r.1, p.Placed) = true := by
    decide +kernel
  rw [accepted] at fits
  obtain ⟨servable, placed⟩ := of_decide_eq_true fits
  exact ⟨tree, app, read, accepted, servable,
    (accepted_models_are_routed_when_servable read accepted).2.1 servable placed⟩

/-- The same star in a list is accepted and cannot be routed. -/
theorem listed_star_is_not_routed :
    ∃ app, sharedApp (.array [.string star]) = .ok app ∧ app.routes?.isSome = false := by
  obtain ⟨app, e, accepted, crossOrigin, member, lists⟩ :
      ∃ app e, sharedApp (.array [.string star]) = .ok app ∧ app.settings.corsEnabled = true ∧
        e ∈ app.served ∧ e.cors.origin.ListsStar :=
    ⟨_, _, rfl, rfl, List.mem_cons_self, List.mem_cons_self⟩
  refine ⟨app, accepted, Bool.eq_false_iff.mpr fun routed => ?_⟩
  exact ((Application.servable_of_routes? routed).usable crossOrigin e member).1 lists

end Serving

end EndpointTree
