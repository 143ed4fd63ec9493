import EndpointTree.Endpoint.Compile
import EndpointTree.Proofs.Faults
import Mathlib.Data.List.Forall2

/-!
# What compiled endpoints owe to those above them

A compiled endpoint depends on its own declaration and on those above it, and on
nothing else. `Tree.lineages` lists these for every endpoint, in the order of
`Tree.values`, so that a statement about inheritance is one about the two lists
side by side.

* `Endpoint.compileOne_eq_ok` says once what compiling one endpoint comes to.
* `Endpoint.compile_lineages` carries a statement about an endpoint and those above it
  from one step to a tree, `Endpoint.compile_values` one about an endpoint alone.
-/

namespace EndpointTree

namespace Tree

variable {α : Type}

mutual

/-- For every value of a tree, in order, the values from it up to the root and on
through those that stand above the tree, nearest first. -/
def lineages (above : List α) : Tree α → List (List α)
  | .node value children => (value :: above) :: lineagesOf (value :: above) children

/-- The lineages of all values in a list of trees. -/
def lineagesOf (above : List α) : List (Tree α) → List (List α)
  | [] => []
  | t :: rest => lineages above t ++ lineagesOf above rest

end

/-- The values of trees one after another. -/
def valuesOf (trees : List (Tree α)) : List α := (subtreesOf trees).map value

theorem values_node (value : α) (children : List (Tree α)) :
    (node value children).values = value :: valuesOf children := rfl

theorem valuesOf_cons (t : Tree α) (rest : List (Tree α)) :
    valuesOf (t :: rest) = t.values ++ valuesOf rest := List.map_append

mutual

/-- Each lineage begins with the value that it is the lineage of. -/
theorem map_head?_lineages (above : List α) :
    ∀ t : Tree α, (t.lineages above).map List.head? = t.values.map some
  | .node value children => by
    rw [lineages, values_node, List.map_cons, List.map_cons,
      map_head?_lineagesOf (value :: above) children]
    rfl

theorem map_head?_lineagesOf (above : List α) :
    ∀ trees : List (Tree α),
      (lineagesOf above trees).map List.head? = (valuesOf trees).map some
  | [] => rfl
  | t :: rest => by
    rw [lineagesOf, valuesOf_cons, List.map_append, List.map_append,
      map_head?_lineages above t, map_head?_lineagesOf above rest]

end

end Tree

namespace Endpoint

/-- What compiling one endpoint comes to. -/
structure Compiled (registry : Registry) (above : Inherited) (d : Declaration) (e : Endpoint) :
    Prop where
  key : e.key = d.key
  path : e.path = match above.path with
    | some parent => Path.join parent d.key
    | none => "/"
  access : resolveAccess registry e.path above.access d.access.rules = .ok e.access
  fields : resolveFields registry e.path e.access above.fields d.access.fields = .ok e.fields
  cors : e.cors = match d.cors with
    | some cors => above.cors.overlay cors
    | none => above.cors
  handlers : resolveHandlers registry e.path "handler" d.handlers = .ok e.handlers
  filters : resolveHandlers registry e.path "filter" d.filters = .ok e.filters
  channel : resolveChannel registry e.path d.channel = .ok e.channel
  collection : e.collection = (d.collection <|> above.collection)

theorem compileOne_eq_ok {registry : Registry} {above : Inherited} {d : Declaration}
    {e : Endpoint} (compiled : compileOne registry above d = .ok e) :
    Compiled registry above d e := by
  obtain ⟨access, accessEq, compiled⟩ := exists_of_bind_eq_ok compiled
  obtain ⟨fields, fieldsEq, compiled⟩ := exists_of_bind_eq_ok compiled
  obtain ⟨handlers, handlersEq, compiled⟩ := exists_of_bind_eq_ok compiled
  obtain ⟨filters, filtersEq, compiled⟩ := exists_of_bind_eq_ok compiled
  obtain ⟨channel, channelEq, compiled⟩ := exists_of_bind_eq_ok compiled
  cases compiled
  exact ⟨rfl, rfl, accessEq, fieldsEq, rfl, handlersEq, filtersEq, channelEq, rfl⟩

theorem Compiled.compileOne_eq {registry : Registry} {above : Inherited} {d : Declaration}
    {e : Endpoint} (compiled : Compiled registry above d e) :
    compileOne registry above d = .ok e := by
  obtain ⟨key, path, access, fields, cors, handlers, filters, channel, collection⟩ := e
  obtain ⟨rfl, rfl, accessEq, fieldsEq, rfl, handlersEq, filtersEq, channelEq, rfl⟩ := compiled
  exact bind_eq_ok accessEq <| bind_eq_ok fieldsEq <| bind_eq_ok handlersEq <|
    bind_eq_ok filtersEq <| bind_eq_ok channelEq rfl

section Trees

variable {registry : Registry}

/-- Trees under the same endpoint are compiled one by one. -/
theorem forall₂_of_compileAll {above : Inherited} {trees : List (Tree Declaration)}
    {models : List Model} (compiled : compileAll registry above trees = .ok models) :
    List.Forall₂ (fun t m => compile registry above t = .ok m) trees models := by
  induction trees generalizing models with
  | nil =>
    cases compiled
    exact .nil
  | cons t rest ih =>
    rw [compileAll] at compiled
    split at compiled
    · cases compiled
    · next m first =>
      obtain ⟨further, restEq, rfl⟩ := exists_of_map_eq_ok compiled
      exact .cons first (ih restEq)

/-- An endpoint is compiled by itself, and those under it from what it passes on. -/
theorem compiled_of_compile {above : Inherited} {t : Tree Declaration} {m : Model}
    (compiled : compile registry above t = .ok m) :
    Compiled registry above t.value m.value ∧
      List.Forall₂ (fun t m' => compile registry m.value.passOn t = .ok m') t.children m.children := by
  obtain ⟨d, children⟩ := t
  rw [compile] at compiled
  split at compiled
  · cases compiled
  · next one =>
    obtain ⟨models, childrenEq, rfl⟩ := exists_of_map_eq_ok compiled
    exact ⟨compileOne_eq_ok one, forall₂_of_compileAll childrenEq⟩

section Lineages

variable (inv : Inherited → List Declaration → List Endpoint → Prop)
  {post : List Declaration → List Endpoint → Prop}

mutual

/-- What one endpoint passes on as it was passed on to it, all of them do: if the
invariant holds above a tree, every endpoint and those above it satisfy the statement
that a single step gives of them. -/
theorem compile_lineages
    (one : ∀ {above ds es d e}, inv above ds es → Compiled registry above d e →
      post (d :: ds) (e :: es) ∧ inv e.passOn (d :: ds) (e :: es)) :
    ∀ {above : Inherited} {ds : List Declaration} {es : List Endpoint} {tree : Tree Declaration}
      {model : Model},
      inv above ds es → compile registry above tree = .ok model →
        List.Forall₂ post (tree.lineages ds) (model.lineages es)
  | above, ds, es, .node d children, model, holds, compiled => by
    rw [compile] at compiled
    cases oneEq : compileOne registry above d with
    | error fault =>
      rw [oneEq] at compiled
      cases compiled
    | ok e =>
      rw [oneEq] at compiled
      obtain ⟨models, childrenEq, rfl⟩ := exists_of_map_eq_ok compiled
      obtain ⟨here, passed⟩ := one holds (compileOne_eq_ok oneEq)
      rw [Tree.lineages, Tree.lineages]
      exact .cons here (compileAll_lineages one passed childrenEq)

/-- Trees that are compiled under the same endpoint all satisfy it. -/
theorem compileAll_lineages
    (one : ∀ {above ds es d e}, inv above ds es → Compiled registry above d e →
      post (d :: ds) (e :: es) ∧ inv e.passOn (d :: ds) (e :: es)) :
    ∀ {above : Inherited} {ds : List Declaration} {es : List Endpoint}
      {trees : List (Tree Declaration)} {models : List Model},
      inv above ds es → compileAll registry above trees = .ok models →
        List.Forall₂ post (Tree.lineagesOf ds trees) (Tree.lineagesOf es models)
  | above, ds, es, [], models, holds, compiled => by
    cases compiled
    exact .nil
  | above, ds, es, t :: rest, models, holds, compiled => by
    rw [compileAll] at compiled
    cases firstEq : compile registry above t with
    | error fault =>
      rw [firstEq] at compiled
      cases compiled
    | ok m =>
      rw [firstEq] at compiled
      obtain ⟨further, restEq, rfl⟩ := exists_of_map_eq_ok compiled
      rw [Tree.lineagesOf, Tree.lineagesOf]
      exact List.rel_append (compile_lineages one holds firstEq)
        (compileAll_lineages one holds restEq)

end

end Lineages

/-- The same for what depends on the declarations above an endpoint only. -/
theorem compile_values (inv : Inherited → List Declaration → Prop)
    {post : List Declaration → Endpoint → Prop}
    (one : ∀ {above ds d e}, inv above ds → Compiled registry above d e →
      post (d :: ds) e ∧ inv e.passOn (d :: ds))
    {above : Inherited} {ds : List Declaration} {tree : Tree Declaration} {model : Model}
    (holds : inv above ds) (compiled : compile registry above tree = .ok model) :
    List.Forall₂ post (tree.lineages ds) model.values := by
  have related : List.Forall₂ (fun ds es => ∃ e, List.head? es = some e ∧ post ds e)
      (tree.lineages ds) (model.lineages []) :=
    compile_lineages (fun above ds _ => inv above ds)
      (fun {above ds es d e} holds step => ⟨⟨e, rfl, (one holds step).1⟩, (one holds step).2⟩)
      holds compiled
  have heads : List.Forall₂ (fun ds first => ∃ e, first = some e ∧ post ds e)
      (tree.lineages ds) (model.values.map some) := by
    rw [← Tree.map_head?_lineages, List.forall₂_map_right_iff]
    exact related
  exact (List.forall₂_map_right_iff.mp heads).imp fun ds e found => by
    obtain ⟨_, same, holds⟩ := found
    rwa [Option.some.inj same]

/-- What every single step gives and passes on, every endpoint of a model satisfies. -/
theorem compile_forall (inv : Inherited → Prop) {post : Endpoint → Prop}
    (one : ∀ {above d e}, inv above → Compiled registry above d e → post e ∧ inv e.passOn)
    {above : Inherited} {tree : Tree Declaration} {model : Model} (holds : inv above)
    (compiled : compile registry above tree = .ok model) : ∀ e ∈ model.values, post e := by
  have related : List.Forall₂ (flip fun e _ => post e ∧ True) (tree.lineages []) model.values :=
    compile_values (fun above _ => inv above)
      (fun {above ds d e} holds step =>
        ⟨⟨(one holds step).1, trivial⟩, (one holds step).2⟩) holds compiled
  exact ((List.forall₂_and_left _ _).mp related.flip).1

end Trees

end Endpoint

end EndpointTree
