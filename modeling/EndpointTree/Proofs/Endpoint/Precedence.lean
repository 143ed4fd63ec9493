import EndpointTree.Proofs.Endpoint.Sites

/-!
# Entries against declarations

Compiling writes the rules of an endpoint over a table, one after another. Against that
stands what a table is meant to be: for each method on its own the rule of the narrowest
scope that the endpoint itself declares, taken as a whole, and the parent's entry where it
declares none.

* `Endpoint.Governs` says what entry a rule makes, if there is one, of the entry above.
* `Endpoint.compile_prevails` is the statement for declarations,
  `Endpoint.compile_prevails_at_sites` the one for documents.
-/

namespace EndpointTree

namespace Declaration

/-- The rule that the first of a lineage declares for a method itself. -/
def ownRule? (lineage : List Access) (m : AccessMethod) : Option Rule :=
  lineage.head?.bind fun d => decider? m d.rules

/-- The value that decides a method at the endpoint of a site itself. -/
def Site.own? (s : Site) (m : AccessMethod) : Option Json :=
  s.auths.head?.bind fun auth => auth.bind (Declaration.deciding? m)

theorem ownRule?_declared (s : Site) (m : AccessMethod) :
    ownRule? (s.auths.map declared) m = (s.own? m).map Rule.ofJson := by
  rw [ownRule?, Site.own?, List.head?_map]
  cases s.auths.head? with
  | none => rfl
  | some auth =>
    cases auth with
    | none => rfl
    | some auth => exact decider?_ofJson m auth

end Declaration

namespace Endpoint

open Declaration (Rule decider? pathOf? ownRule?)

/-- The entry that a rule makes: flag, roles and policies are all its own, and the entry
passed on shows only where there is no rule. -/
inductive Governs (registry : Registry) (passedOn : AuthEntry) : Option Rule → AuthEntry → Prop
  | nothing : Governs registry passedOn none passedOn
  | deny : Governs registry passedOn (some .deny) .forbidden
  | malformed {fault : Declaration.RuleFault} :
    Governs registry passedOn (some (.malformed fault)) .forbidden
  | allow : Governs registry passedOn (some .allow) (.required ⟨false, none, [.builtin]⟩)
  | require {auth : Option Bool} {roles : Option (List String)} {names : List String}
      {declared : List Policy} :
    List.Forall₂ (fun name policy => registry.policies.get? name = some policy) names declared →
    Governs registry passedOn (some (.require auth roles names))
      (.required ⟨auth.getD true, roles, .builtin :: declared⟩)

/-- Names that are looked up all stand for something, in their order. -/
theorem forall₂_of_lookUp_eq_ok {α β : Type} {table : Dict α} {make : String → α → β}
    {unknown : String → CompileFault} {names : List String} {values : List β}
    (found : lookUp table make unknown names = .ok values) :
    List.Forall₂ (fun name value => ∃ a, table.get? name = some a ∧ make name a = value)
      names values := by
  induction names generalizing values with
  | nil =>
    cases found
    exact .nil
  | cons name rest ih =>
    rw [lookUp] at found
    cases known : table.get? name with
    | none =>
      rw [known] at found
      cases found
    | some a =>
      rw [known] at found
      obtain ⟨further, restEq, rfl⟩ := exists_of_map_eq_ok found
      exact .cons ⟨a, known, rfl⟩ (ih restEq)

theorem Settles.governs {registry : Registry} {path : String} {passedOn entry : AuthEntry}
    {rule? : Option Rule} (settles : Settles registry path passedOn entry rule?) :
    Governs registry passedOn rule? entry := by
  cases rule? with
  | none =>
    have kept : entry = passedOn := settles
    rw [kept]
    exact .nothing
  | some rule =>
    have compiled : entryOf registry path rule = .ok entry := settles
    cases rule with
    | deny =>
      cases compiled
      exact .deny
    | malformed fault =>
      cases compiled
      exact .malformed
    | allow =>
      cases compiled
      exact .allow
    | require auth roles names =>
      obtain ⟨declared, found, rfl⟩ := exists_of_map_eq_ok compiled
      refine .require ((forall₂_of_lookUp_eq_ok found).imp fun name policy known => ?_)
      obtain ⟨_, known, rfl⟩ := known
      exact known

/-- The entry that an endpoint finds above it: its parent's, or at the root one that
asks for authentication and for no roles. -/
def passedDown (above : List Endpoint) (m : AccessMethod) : AuthEntry :=
  match above with
  | [] => .required ⟨true, none, [.builtin]⟩
  | parent :: _ => parent.access m

/-- An endpoint, with those above it, stands at a path, and every one of its entries is
governed by the rule that it declares for the method itself. -/
inductive Prevails (registry : Registry) (own? : AccessMethod → Option Rule) :
    Option String → List Endpoint → Prop
  | intro {e : Endpoint} {above : List Endpoint} :
    (∀ m, Governs registry (passedDown above m) (own? m) (e.access m)) →
    Prevails registry own? (some e.path) (e :: above)

variable {registry : Registry} {defaults : CorsOptions} {tree : Tree Declaration} {model : Model}

theorem Compiled.prevails {above : Inherited} {ds : List Declaration} {es : List Endpoint}
    {d : Declaration} {e : Endpoint} (compiled : Compiled registry above d e)
    (path : pathOf? ds = above.path) (access : above.access = passedDown es) :
    Prevails registry (ownRule? ((d :: ds).map (·.access))) (pathOf? (d :: ds)) (e :: es) := by
  rw [compiled.pathOf?_eq path]
  refine .intro fun m => ?_
  rw [← access]
  exact (resolveAccess_settles compiled.access m).governs

/-- In a compiled tree every endpoint goes by its own narrowest rules, and for the
other methods by the endpoint above it. -/
theorem compile_prevails (compiled : compile registry (.root defaults) tree = .ok model) :
    List.Forall₂ (fun ds es => Prevails registry (ownRule? (ds.map (·.access))) (pathOf? ds) es)
      (tree.lineages []) (model.lineages []) := by
  refine compile_lineages
    (fun above ds es => pathOf? ds = above.path ∧ above.access = passedDown es)
    (fun {above ds es d e} holds step => ?_) ⟨rfl, rfl⟩ compiled
  obtain ⟨path, access⟩ := holds
  exact ⟨step.prevails path access, step.pathOf?_eq path, rfl⟩

/-- The same read off the document that declares the tree. -/
theorem compile_prevails_at_sites {raw : Json}
    (read : Declaration.ofJson "/" "" raw = .ok tree)
    (compiled : compile registry (.root defaults) tree = .ok model) :
    List.Forall₂
      (fun site es => Prevails registry (fun m => (site.own? m).map Rule.ofJson) (some site.path) es)
      (Declaration.sites "/" [] raw) (model.lineages []) := by
  refine (Declaration.forall₂_sites (fun path lineage => Prevails registry (ownRule? lineage) path)
    read (compile_prevails compiled)).imp fun site es prevails => ?_
  have sameRules : ownRule? (site.auths.map Declaration.declared) =
      fun m => (site.own? m).map Rule.ofJson :=
    funext fun m => Declaration.ownRule?_declared site m
  rw [← sameRules]
  exact prevails

end Endpoint

end EndpointTree
