import EndpointTree.Proofs.Endpoint.Lineage
import EndpointTree.Proofs.Pairs

/-!
# Which rule decides a method

Compiling assigns the rules of an endpoint one after another, from the widest
scope to the narrowest, over the table of its parent. What comes of it can be said
for one method at a time: the last rule of the narrowest scope that has one
decides, and where no scope has one the parent's entry stays.

* `Declaration.decider?` is that rule, `Declaration.nearest?` the one that a
  lineage of declarations has for a method.
* `Endpoint.resolveAccess_settles` is the statement for one endpoint,
  `Endpoint.compile_access` for all endpoints of a tree.
-/

namespace EndpointTree

namespace Declaration

/-- The scope of the group that a method belongs to. -/
def Scope.groupOf (m : AccessMethod) : Scope := if m.isRead then .read else .write

/-- The rule that decides a method at one endpoint. -/
def decider? (m : AccessMethod) (rules : List (Scope × Rule)) : Option Rule :=
  (lastUnder? (.method m) rules).or
    ((lastUnder? (.groupOf m) rules).or (lastUnder? .common rules))

/-- The rule that decides a method in a lineage. -/
def nearest? (m : AccessMethod) (lineage : List Access) : Option Rule :=
  lineage.findSome? fun d => decider? m d.rules

/-- The path of an endpoint under a parent's path, or at the root. -/
def pathUnder (parent? : Option String) (key : String) : String :=
  match parent? with
  | some parent => Path.join parent key
  | none => "/"

/-- The path of the endpoint with this lineage, if it has an endpoint at all. -/
def pathOf? : List Declaration → Option String
  | [] => none
  | d :: above => some (pathUnder (pathOf? above) d.key)

end Declaration

namespace Endpoint

open Declaration (Rule Scope decider? nearest? pathOf?)

/-- An entry is that of the rule that decides it; without one, the entry passed on stays. -/
def Settles (registry : Registry) (path : String) (passedOn entry : AuthEntry) :
    Option Rule → Prop
  | none => entry = passedOn
  | some rule => entryOf registry path rule = .ok entry

/-- Of rules that are assigned one after another, the last that reaches a method decides it. -/
theorem foldl_assign_settles {registry : Registry} {path : String} {m : AccessMethod}
    {rules : List (Scope × Rule)} {entries : List (Scope × AuthEntry)}
    (compiled : entriesOf registry path rules = .ok entries) (table : AuthTable) :
    Settles registry path (table m)
      ((entries.foldl (fun table (scope, entry) => table.assign (covers scope) entry) table) m)
      ((rules.reverse.find? fun r => covers r.1 m).map (·.2)) := by
  induction rules generalizing entries table with
  | nil =>
    cases compiled
    rfl
  | cons r rest ih =>
    obtain ⟨scope, rule⟩ := r
    rw [entriesOf] at compiled
    obtain ⟨entry, entryEq, compiled⟩ := exists_of_bind_eq_ok compiled
    obtain ⟨further, restEq, compiled⟩ := exists_of_bind_eq_ok compiled
    cases compiled
    have rest_settles := ih restEq (table.assign (covers scope) entry)
    rw [List.reverse_cons, List.find?_append, List.foldl_cons]
    cases found : rest.reverse.find? fun r => covers r.1 m with
    | some r =>
      rw [found] at rest_settles
      exact rest_settles
    | none =>
      -- nothing behind this rule reaches the method, so it is this rule's turn
      rw [found] at rest_settles
      have kept : (further.foldl (fun table (scope, entry) => table.assign (covers scope) entry)
          (table.assign (covers scope) entry)) m = if covers scope m then entry else table m :=
        rest_settles
      rw [kept, List.find?_singleton]
      cases covers scope m with
      | true => exact entryEq
      | false => rfl

section Widths

variable {σ μ α : Type} (width : σ → Nat) (covers : σ → μ → Bool)

theorem find?_filter_of_misses (n : Nat) (m : μ)
    (misses : ∀ s, width s = n → covers s m = false) (rules : List (σ × α)) :
    ((rules.filter fun r => width r.1 = n).reverse.find? fun r => covers r.1 m) = none := by
  refine List.find?_eq_none.mpr fun r member => ?_
  have wide := List.of_mem_filter (List.mem_reverse.mp member)
  rw [misses r.1 (of_decide_eq_true wide)]
  exact Bool.false_ne_true

variable [DecidableEq σ]

/-- Among what is declared for the scopes of one width, the last that reaches a method is
the last one of the scope that reaches it. -/
theorem find?_filter_of_reaches (n : Nat) (m : μ) (scope : σ)
    (reaches : ∀ s, (width s = n ∧ covers s m = true) ↔ s = scope) (rules : List (σ × α)) :
    ((rules.filter fun r => width r.1 = n).reverse.find? fun r => covers r.1 m).map (·.2) =
      lastUnder? scope rules := by
  rw [← List.filter_reverse, List.find?_filter, lastUnder?]
  simp only [decide_eq_true_eq, reaches]

/-- Where the scopes from some width on that reach a method are its own and that of its group,
the last that reaches it, from the widest to the narrowest, is the last one of its own
scope, or else of its group. -/
theorem find?_narrowest (n : Nat) (m : μ) (own group : σ) (ownWidth : width own = n + 2)
    (groupWidth : width group = n ∨ width group = n + 1)
    (reaches : ∀ s, n ≤ width s → (covers s m = true ↔ s = own ∨ s = group))
    (rules : List (σ × α)) :
    (([n, n + 1, n + 2].flatMap fun k => rules.filter fun r => width r.1 = k).reverse.find?
        fun r => covers r.1 m).map (·.2) =
      (lastUnder? own rules).or (lastUnder? group rules) := by
  have single := find?_filter_of_reaches width covers (n + 2) m own (fun s => by grind) rules
  simp only [List.flatMap_cons, List.flatMap_nil, List.append_nil, List.reverse_append,
    List.find?_append, Option.map_or, single]
  rw [Option.or_assoc]
  -- only one of the two groups reaches the method
  rcases groupWidth with wide | narrow
  · rw [find?_filter_of_reaches width covers n m group (fun s => by grind),
      find?_filter_of_misses width covers (n + 1) m (fun s => by grind), Option.map_none,
      Option.none_or]
  · rw [find?_filter_of_reaches width covers (n + 1) m group (fun s => by grind),
      find?_filter_of_misses width covers n m (fun s => by grind), Option.map_none, Option.or_none]

end Widths

/-- From the widest scope to the narrowest: the last rule that reaches a method is
the last one of the narrowest scope that has one. -/
theorem find?_widestFirst (m : AccessMethod) (rules : List (Scope × Rule)) :
    ((widestFirst rules).reverse.find? fun r => covers r.1 m).map (·.2) = decider? m rules := by
  have common := find?_filter_of_reaches narrowness covers 0 m .common
    (fun s => by cases s <;> simp [narrowness, covers]) rules
  have narrower := find?_narrowest narrowness covers 1 m (.method m) (.groupOf m) rfl
    (by rw [Scope.groupOf]; cases m.isRead <;> simp [narrowness])
    (fun s wide => by
      rw [Scope.groupOf]
      cases s <;> cases reads : m.isRead <;> simp_all [narrowness, covers]) rules
  rw [widestFirst, List.flatMap_cons, List.reverse_append, List.find?_append, Option.map_or, narrower,
    common, decider?, Option.or_assoc]

/-- At one endpoint the narrowest declared rule decides a method, or else its parent does. -/
theorem resolveAccess_settles {registry : Registry} {path : String} {inherited table : AuthTable}
    {rules : List (Scope × Rule)} (resolved : resolveAccess registry path inherited rules = .ok table)
    (m : AccessMethod) :
    Settles registry path (inherited m) (table m) (decider? m rules) := by
  obtain ⟨entries, compiled, rfl⟩ := exists_of_map_eq_ok resolved
  rw [← find?_widestFirst]
  exact foldl_assign_settles compiled inherited

/-- An entry is that of the rule which decides it in a lineage; without one, it asks
for authentication. -/
def Resolved (registry : Registry) (entry : AuthEntry) : Option Rule → Prop
  | none => entry = .required .authenticated
  | some rule => ∃ path, entryOf registry path rule = .ok entry

/-- A path and a table are those that a lineage gives. -/
def Follows (registry : Registry) (ds : List Declaration) (path : Option String)
    (access : AuthTable) : Prop :=
  pathOf? ds = path ∧ ∀ m, Resolved registry (access m) (nearest? m (ds.map (·.access)))

/-- An endpoint has the path that its lineage gives, if what is passed on to it has. -/
theorem Compiled.pathOf?_eq {registry : Registry} {above : Inherited} {ds : List Declaration}
    {d : Declaration} {e : Endpoint} (compiled : Compiled registry above d e)
    (path : pathOf? ds = above.path) : pathOf? (d :: ds) = some e.path := by
  rw [compiled.path, pathOf?, path]
  rfl

theorem Compiled.follows {registry : Registry} {above : Inherited} {ds : List Declaration}
    {d : Declaration} {e : Endpoint} (compiled : Compiled registry above d e)
    (holds : Follows registry ds above.path above.access) :
    Follows registry (d :: ds) (some e.path) e.access := by
  obtain ⟨pathEq, resolved⟩ := holds
  refine ⟨compiled.pathOf?_eq pathEq, fun m => ?_⟩
  have settles := resolveAccess_settles compiled.access m
  rw [List.map_cons, nearest?, List.findSome?_cons]
  cases decided : decider? m d.access.rules with
  | some rule =>
    rw [decided] at settles
    exact ⟨e.path, settles⟩
  | none =>
    rw [decided] at settles
    have kept : e.access m = above.access m := settles
    rw [kept]
    exact resolved m

/-- Every endpoint has the path that its lineage gives, and every one of its entries
is that of the nearest rule for it. -/
theorem compile_access {registry : Registry} {defaults : CorsOptions} {tree : Tree Declaration}
    {model : Model} (compiled : compile registry (.root defaults) tree = .ok model) :
    List.Forall₂ (fun ds e => Follows registry ds (some e.path) e.access)
      (tree.lineages []) model.values := by
  have root : Follows registry [] (Inherited.root defaults).path (Inherited.root defaults).access :=
    ⟨rfl, fun m => rfl⟩
  refine compile_values (fun above ds => Follows registry ds above.path above.access)
    (fun holds step => ?_) root compiled
  have here := step.follows holds
  exact ⟨here, here⟩

/-! ## The built-in policy -/

/-- Every requirement of a table has the built-in policy at the head of its list. -/
def Guarded (table : AuthTable) : Prop :=
  ∀ m r, table m = .required r → ∃ declared, r.policies = .builtin :: declared

theorem entryOf_guarded {registry : Registry} {path : String} {rule : Rule} {r : Requirement}
    (compiled : entryOf registry path rule = .ok (.required r)) :
    ∃ declared, r.policies = .builtin :: declared := by
  cases rule with
  | deny | malformed => cases compiled
  | allow =>
    cases compiled
    exact ⟨[], rfl⟩
  | require auth roles policies =>
    obtain ⟨declared, -, entryEq⟩ := exists_of_map_eq_ok compiled
    cases entryEq
    exact ⟨declared, rfl⟩

theorem resolveAccess_guarded {registry : Registry} {path : String} {inherited table : AuthTable}
    {rules : List (Scope × Rule)} (guarded : Guarded inherited)
    (resolved : resolveAccess registry path inherited rules = .ok table) : Guarded table := by
  intro m r entry
  have settles := resolveAccess_settles resolved m
  rw [entry] at settles
  cases decided : decider? m rules with
  | none =>
    rw [decided] at settles
    exact guarded m r settles.symm
  | some rule =>
    rw [decided] at settles
    exact entryOf_guarded settles

/-- Every table of a model is guarded, inherited entries included. -/
theorem compile_guarded {registry : Registry} {defaults : CorsOptions} {tree : Tree Declaration}
    {model : Model} (compiled : compile registry (.root defaults) tree = .ok model) :
    ∀ e ∈ model.values, Guarded e.access := by
  have root : Guarded (Inherited.root defaults).access := by
    intro m r entry
    cases entry
    exact ⟨[], rfl⟩
  refine compile_forall (fun above => Guarded above.access) (fun guarded step => ?_) root compiled
  have here := resolveAccess_guarded guarded step.access
  exact ⟨here, here⟩

end Endpoint

end EndpointTree
